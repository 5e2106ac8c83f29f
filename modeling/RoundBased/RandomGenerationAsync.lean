import RoundBased.AsyncCompleteness
import RoundBased.RandomGenerationEchoRuns

/-! The protocol of random generation in the asynchronous simulation. -/
namespace RoundBased

namespace EchoBroadcast
open AsyncEnv Interaction RoundsRouter WithEchoBroadcast

variable {ι H M A C : Type} {T : ι → Type} [∀ k, RoundMsg M (T k)] [ProtocolMsg M]
  [∀ k, ShortRoundMsg M (T k)] [Build] [Digest H M] [DecidableEq H]
  [TypeIds (SubStore H M fun k => RoundInput (T k))]
  [BroadcastChannel C (Outgoing (Incoming (Msg H M)))] [PolledChannel C] {capacity : ℕ}
  {ch : Retains C (Outgoing (Incoming (Msg H M))) capacity} {channel : C} {n : UInt16}
  {ws : List (Round ι)} {value : PartyIndex → (k : ι) → T k} {Q : PartyIndex → A → Prop}
  {parties : PartyIndex → WithEchoBroadcast M × RoundsRouter (Msg H M) (SubStore H M fun k =>
    RoundInput (T k))}
  {prog : PartyIndex → RoundsProg (M := M) T MockedDeliveryError A}

/-- Programs that take rounds over the echo broadcast come to an end, if the buffer holds a message
of each party for each of the rounds of the engine. -/
theorem concludes_turns (hempty : ch.items channel = [])
    (hsetup : ∀ p < n, setUp p n (ws.map Round.setting) = .ok (parties p))
    (hprog : ∀ p < n, TakesRounds n p value (Q p) ws (prog p))
    (hroom : n.toNat * ((ws.map Round.setting).flatMap subRounds).length ≤ capacity)
    {Good : List A → Prop} (hgood : ∀ outs, outs.length = n.toNat →
      (∀ p < n, ∃ out, outs[p.toNat]? = some out ∧ Q p out) → Good outs) :
    ∃ env0, Env.connected n channel (roundsNodes parties prog) = .ok env0 ∧
      Concludes n Good env0 := by
  obtain ⟨l0,ha⟩ := arranged_turns hsetup hprog
  obtain ⟨env0,hconnect,hstart⟩ := polled_connected hempty ha
  exact ⟨env0,hconnect,hstart.concludes ha
    (fun p hp => inTurn_of_setUp hp (hsetup p hp) (hprog p hp)) hroom hgood⟩

end EchoBroadcast

namespace RandomGeneration
open AsyncEnv EchoBroadcast Interaction RoundsRouter Transition

section Plain

variable [Build] {C : Type} [BroadcastChannel C (Outgoing (Incoming Msg))] [PolledChannel C]
  {capacity : ℕ} (ch : Retains C (Outgoing (Incoming Msg)) capacity) {channel : C}
  (digest : Randomness → Vector UInt8 32) (r : PartyIndex → Randomness) {n : UInt16}

/-- If the buffer holds two messages of each party, then the parties come to an end however they are
polled, and the checks of the result succeed with the sum of what all have generated. -/
theorem async_generates_total (hempty : ch.items channel = []) (h2 : 2 ≤ n.toNat)
    (hn : n.toNat < 65535) (hroom : n.toNat * 2 ≤ capacity)
    (debug : RandomGeneration.Error (RecvErr MockedDeliveryError) MockedDeliveryError → String)
    (debug' : Randomness → String) :
    ∃ env0, Env.connected n channel (party digest r n) = .ok env0 ∧ Concludes n (fun outs =>
      (SimResult.expectOk debug outs).bind (SimResult.expectEq debug') = .ok (total r n)) env0 := by
  obtain ⟨l0,ha⟩ := arranged digest r h2 hn
  obtain ⟨env0,hconnect,hstart⟩ := polled_connected hempty ha
  refine ⟨env0,hconnect,hstart.concludes (Q := fun _ res => res = .ok (total r n)) ha
    (fun p hp => prog_inTurn digest r hn hp) hroom fun outs hlen hall => ?_⟩
  exact checks_of_parties debug debug' (by omega) hlen hall

end Plain

theorem async_generates_total_three :
    letI : Build := .debug
    let channel : Buffer 6 (Outgoing (Incoming Msg)) := ⟨[],0⟩
    ∃ env0, Env.connected 3 channel (party id bytesOf 3) = .ok env0 ∧ Concludes 3 (fun outs =>
      (SimResult.expectOk (fun _ => "") outs).bind (SimResult.expectEq fun _ => "") =
        .ok (total bytesOf 3)) env0 := by
  let _ : Build := .debug
  exact async_generates_total (Buffer.retains 6 _) id bytesOf rfl (by decide) (by decide) (by decide)
    _ _

section Echo

variable [Build] (H : Type) [Digest H Msg] [DecidableEq H] {C : Type}
  [BroadcastChannel C (Outgoing (Incoming (EchoBroadcast.Msg H Msg)))] [PolledChannel C]
  {capacity : ℕ} (ch : Retains C (Outgoing (Incoming (EchoBroadcast.Msg H Msg))) capacity) {channel : C}
  (digest : Randomness → Vector UInt8 32) (r : PartyIndex → Randomness) {n : UInt16}

/-- Over the echo broadcast there is one message more of each party, and the same output. -/
theorem async_echo_generates_total (hempty : ch.items channel = []) (h2 : 2 ≤ n.toNat)
    (hn : n.toNat < 65535) (hroom : n.toNat * 3 ≤ capacity)
    (debug : RandomGeneration.Error (EchoRecvErr MockedDeliveryError)
      (EchoBroadcast.Error MockedDeliveryError) → String) (debug' : Randomness → String) :
    ∃ env0, Env.connected n channel (partyOverEcho H digest r n) = .ok env0 ∧ Concludes n (fun outs =>
      (SimResult.expectOk debug outs).bind (SimResult.expectEq debug') = .ok (total r n)) env0 := by
  exact concludes_turns (Q := fun _ res => res = .ok (total r n)) hempty
    (fun p hp => setUp_parties h2 hp) (fun p hp => echoTurns_takesRounds hn hp) hroom
    fun outs hlen hall => checks_of_parties debug debug' (by omega) hlen hall

end Echo

theorem async_echo_generates_total_three :
    letI : Build := .debug
    let channel : Buffer 9 (Outgoing (Incoming (EchoBroadcast.Msg Hash Msg))) := ⟨[],0⟩
    ∃ env0, Env.connected 3 channel (partyOverEcho Hash id bytesOf 3) = .ok env0 ∧
      Concludes 3 (fun outs => (SimResult.expectOk (fun _ => "") outs).bind
        (SimResult.expectEq fun _ => "") = .ok (total bytesOf 3)) env0 := by
  let _ : Build := .debug
  exact async_echo_generates_total Hash (Buffer.retains 9 _) id bytesOf rfl (by decide) (by decide)
    (by decide) _ _

end RandomGeneration
end RoundBased
