import RoundBased.Scheduling
import RoundBased.MpcParty
import RoundBased.EchoTraces
import RoundBased.EchoDiscipline
import RoundBased.EchoRouting
import RoundBased.EchoParty
import RoundBased.Collecting
import RoundBased.EchoGate
import RoundBased.StateMachine
import RoundBased.Node
import RoundBased.Network
import RoundBased.FaultFree
import RoundBased.ReceivedMap
import RoundBased.OwnMessages
import RoundBased.MainRoundAgreement
import RoundBased.Counters
import RoundBased.RoundViews
import RoundBased.IndexArithmetic
import RoundBased.Simulation
import RoundBased.SimulationQueues
import RoundBased.SimulationIndexes
import RoundBased.SimulationDelivery
import RoundBased.Descent
import RoundBased.SimulationTermination
import RoundBased.EchoWire
import RoundBased.FailedSends
import RoundBased.FaultFreeRuns
import RoundBased.ScheduleIndependence
import RoundBased.StoreWrappers
import RoundBased.AsyncSimulation
import RoundBased.SimulatedNetworks
import RoundBased.DerivedRounds
import RoundBased.Lockstep
import RoundBased.EchoPlan
import RoundBased.EchoCompleteness
import RoundBased.OutputOrigin
import RoundBased.CorruptedNetwork
import RoundBased.EchoVectors
import RoundBased.EchoAgreement
import RoundBased.PartyProtocol
import RoundBased.PartyRuns
import RoundBased.SimulationRefinement
import RoundBased.SimulationCompleteness
import RoundBased.SimulationResult
import RoundBased.RandomGenerationProtocol
import RoundBased.RandomGenerationRuns
import RoundBased.RandomGenerationEcho
import RoundBased.EchoTurns
import RoundBased.RandomGenerationEchoRuns
import RoundBased.NetworkTermination
import RoundBased.AsyncNetwork
import RoundBased.AsyncCompleteness
import RoundBased.RandomGenerationAsync
