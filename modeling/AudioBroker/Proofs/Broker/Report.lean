import AudioBroker.Proofs.Broker.Turn

/-!
# Reports of ended starts

Both profile layers report the end of a start under the token of the owner that it
was for. The broker treats the two alike, but that each layer is heard on its own
kind of transport only.

- `Report`, `Operation.report?`: a report, and the operations that bring one.
- `Broker.report`: what the broker does about a report; `a2dpResumed_eq_report` and
  `voiceConnected_eq_report` say that it is what both layers are treated by.
- `Broker.Expects`: when a report finds an owner that waits for it; any other one
  changes nothing (`report_of_not_expects`).
- `Step.reported`: a step with a report does what `Broker.report` does.
-/

namespace AudioBroker

open Dialogue

/-- A report that a start has ended. -/
structure Report where
  /-- Whether the A2DP layer reports, and not the headset layer. -/
  isA2dp : Bool
  token : Token
  success : Bool

/-- The report that comes in with an operation. -/
def Operation.report? : Operation → Option Report
  | .a2dpResumed token result | .handle (.a2dpResumed token result) =>
    some { isA2dp := true, token, success := result.isStarted }
  | .voiceConnected token connected | .handle (.voiceConnected token connected) =>
    some { isA2dp := false, token, success := connected }
  | _ => none

namespace Broker

variable {b b' : Broker} {token : Token} {r : Report} {es : List Exchange}

/-- Hears a report, if there is a transport of the layer that reports. -/
def report (b : Broker) (r : Report) : Dialogue Broker :=
  match b.transports.get? r.token.transport with
  | none => pure b
  | some t =>
    if t.backend.isA2dp = r.isA2dp then b.complete t r.token r.success else pure b

/-- A resumed stream is a report of the A2DP layer. -/
theorem a2dpResumed_eq_report (b : Broker) (token : Token) (result : ResumeReport) :
    b.a2dpResumed token result = b.report
      { isA2dp := true, token, success := result.isStarted } := rfl

/-- A connected voice link is a report of the headset layer. -/
theorem voiceConnected_eq_report (b : Broker) (token : Token) (connected : Bool) :
    b.voiceConnected token connected = b.report
      { isA2dp := false, token, success := connected } := by
  unfold voiceConnected report
  cases b.transports.get? token.transport with
  | none => rfl
  | some t => cases hkind : t.backend.isA2dp <;> simp [hkind]

/-- An owner of a transport of the layer waits for the end of a start under the
token. -/
def Expects (b : Broker) (isA2dp : Bool) (token : Token) : Prop :=
  ∃ t, b.transports.get? token.transport = some t ∧ t.backend.isA2dp = isA2dp ∧
    (t.awaiting? token.owner).isSome = true

instance (b : Broker) (isA2dp : Bool) (token : Token) :
    Decidable (b.Expects isA2dp token) :=
  decidable_of_iff ((b.transports.get? token.transport).any fun t =>
      decide (t.backend.isA2dp = isA2dp ∧
          (t.awaiting? token.owner).isSome = true)) <| by
    simp [Expects, Option.any_eq_true]

/-- Storing a transport as it is changes nothing. -/
theorem store_self {id : TransportId} {t : Transport} (hd : b.transports.Distinct)
    (hget : b.transports.get? id = some t) : b.store t = b := by
  rw [store, hd.replace_self ((Registry.get?_eq_some hget).2 ▸ hget)]

/-- A report that nobody waits for changes nothing, and nothing is said. -/
theorem report_of_not_expects (hd : b.transports.Distinct)
    (h : ¬ b.Expects r.isA2dp r.token) :
    b.report r = pure b := by
  unfold report
  cases hget : b.transports.get? r.token.transport with
  | none => rfl
  | some t =>
    by_cases hkind : t.backend.isA2dp = r.isA2dp
    · have hnone : t.awaiting? r.token.owner = none := by
        by_contra hwaits
        exact h ⟨t, hget, hkind, Option.isSome_iff_ne_none.mpr hwaits⟩
      simp only [if_pos hkind, complete, Transport.complete, hnone, pure_bind,
        store_self hd hget]
      rfl
    · exact if_neg hkind

/-- That a client left who owns nothing changes nothing, and nothing is said. -/
theorem exit_of_owner?_eq_none (hd : b.transports.Distinct)
    (h : b.owner? token = none) :
    b.exit token = pure (false, b) := by
  unfold exit
  cases hget : b.transports.get? token.transport with
  | none => rfl
  | some t =>
    have hnone : t.owner? token.owner = none := by
      simpa [owner?, hget] using h
    simp only [Transport.exit, hnone, pure_bind, store_self hd hget]

end Broker

/-- A step with a report does what is done about the report. -/
theorem Step.reported {s : Step} {r : Report} (h : s.op.report? = some r) :
    (s.before.report r).Yields s.exchanges s.after := by
  obtain ⟨b, op, es, result, b', performed⟩ := s
  -- the four operations that bring a report
  have hevent : ∀ event, Operation.report? (.handle event) = some r →
      (b.handle event).Yields es b' → (b.report r).Yields es b' := by
    intro event hr went
    cases event with
    | a2dpResumed token result =>
      cases hr
      rw [← Broker.a2dpResumed_eq_report]
      exact went
    | voiceConnected token connected =>
      cases hr
      rw [← Broker.voiceConnected_eq_report]
      exact went
    | call _ _ _ _ | exited _ | delayed _ _ => cases hr
  cases op with
  | a2dpResumed token result =>
    obtain ⟨b₁, went, heq⟩ := yields_map.mp performed
    cases heq
    exact hevent (.a2dpResumed token result) h went
  | voiceConnected token connected =>
    obtain ⟨b₁, went, heq⟩ := yields_map.mp performed
    cases heq
    exact hevent (.voiceConnected token connected) h went
  | handle event =>
    obtain ⟨b₁, went, heq⟩ := yields_map.mp performed
    cases heq
    exact hevent event h went
  | create _ _ _ | remove _ | acquire _ _ _ _ | release _ _ _ | properties _
  | setProperty _ _ _ | exit _ | reportDelay _ _ | runDeferred | dispatch _ _ _ _ =>
    cases h

end AudioBroker
