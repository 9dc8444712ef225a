import AudioBroker.Proofs.Failures
import AudioBroker.Proofs.Sharing
import AudioBroker.Proofs.StreamLocks
import AudioBroker.Proofs.Transport.Admission

/-!
# What a request for access comes to

- `Broker.refusal?`: the first reason to turn down a request for access, if there is
  one.
- `Broker.acquire_of_refusal`, `Broker.acquire_of_no_refusal`: what is done with a
  request that is turned down, and with one that is not.
- `Run.acquire_outcome`: both, in every state that can be reached.
-/

namespace AudioBroker

open Dialogue

namespace Broker

variable {b b' : Broker} {t : Transport} {path client text : String}
  {call : PendingCall} {es : List Exchange} {fault : Fault}

/-- The first reason to turn down a request for access to the transport at a path. -/
def refusal? (b : Broker) (path client text : String) : Option Fault :=
  match b.transports.find? path with
  | none => some .doesNotExist
  | some t => t.refusal? client text

/-- A live transport decides by itself. -/
theorem refusal?_of_find? (h : b.transports.find? path = some t) :
    b.refusal? path client text = t.refusal? client text := by
  rw [refusal?, h]

/-- A request is turned down unless its path names a transport that has no reason to
turn it down. -/
theorem refusal?_eq_none_iff : b.refusal? path client text = none ↔
    ∃ t, b.transports.find? path = some t ∧ t.refusal? client text = none := by
  rw [refusal?]
  cases b.transports.find? path <;> simp

/-- A request that is turned down is handed back with the reason. Nothing is said,
and nothing changes but that a number is used up. -/
theorem acquire_of_refusal (hd : b.transports.Distinct)
    (room : ∀ t ∈ b.transports.toList, t.owners.toList.length < maxOwners)
    (h : b.refusal? path client text = some fault) :
    b.acquire path client text call =
      pure (.error { fault, call },
        b.afterFailure (.acquire path client text call)) := by
  rw [acquire, afterFailure, transportAt?_eq hd]
  cases hfind : b.transports.find? path with
  | none =>
    rw [refusal?, hfind] at h
    cases h
    rfl
  | some t =>
    have hmem := (Registry.find?_eq_some hfind).1
    rw [refusal?_of_find? hfind, ← Transport.admission_eq_error_iff (room t hmem)]
      at h
    simp only [Transport.acquire, h, pure_bind, store_self hd (hd.get?_of_mem hmem)]
    rfl

/-- A request that is not turned down is carried out by its transport, which takes
on the client. -/
theorem acquire_of_no_refusal (hd : b.transports.Distinct)
    (room : t.owners.toList.length < maxOwners) (engaged : t.Engaged)
    (hfind : b.transports.find? path = some t) (h : t.refusal? client text = none) :
    ∃ name access, name.str = client ∧ Access.parse? text = some access ∧
      ∀ es result b', (b.acquire path client text call).Yields es (result, b') ↔
        result = .ok () ∧ ∃ t', t.TakenOn name access call b.nextOwner es t' ∧
          b' = { b.store t' with nextOwner := b.nextOwner.next } := by
  cases hadmitted : t.admission client text with
  | error fault =>
    rw [Transport.admission_eq_error_iff room, h] at hadmitted
    cases hadmitted
  | ok na =>
    obtain ⟨name, access⟩ := na
    obtain ⟨-, hparse, free, hname, -⟩ := Transport.admission_eq_ok hadmitted
    refine ⟨name, access, hname, hparse, fun es result b' => ?_⟩
    -- `Engaged` and the admission provide what the exact description of `takeOn`
    -- asks
    have htakeOn : ∀ es t', (t.takeOn name access call b.nextOwner).Yields es t' ↔
        t.TakenOn name access call b.nextOwner es t' := fun _ _ =>
      Transport.takeOn_yields_iff engaged.inUse_iff engaged.keyed room free
    rw [acquire, transportAt?_eq hd, hfind]
    simp only [Transport.acquire, hadmitted, bind_pure_comp, yields_map, htakeOn]
    constructor
    · rintro ⟨-, ⟨t', taken, rfl⟩, hresult⟩
      cases hresult
      exact ⟨rfl, t', taken, rfl⟩
    · rintro ⟨rfl, t', taken, rfl⟩
      exact ⟨_, ⟨t', taken, rfl⟩, rfl⟩

end Broker

/-- In every state of every run, a request for access is admitted if and only if its
path names a live transport of which the client owns nothing, it names a direction
and none that is taken, and the client's name fits. A request that is turned down is
answered with the first of these reasons; it says nothing, and changes nothing but
that a number is used up. For one that is admitted, the transport takes on the
client, in one of the two ways of `Transport.TakenOn`. -/
theorem Run.acquire_outcome {options : Options} {steps : List Step} {b : Broker}
    (run : Run (.empty options) steps b) (path client text : String)
    (call : PendingCall) :
    (b.refusal? path client text = none ↔
        ∃ t, b.transports.find? path = some t ∧
          (∀ o ∈ t.owners.toList, o.name.str ≠ client) ∧
          ('r' ∈ text.toList ∨ 'w' ∈ text.toList) ∧
          ('r' ∈ text.toList → t.locks.read = false) ∧
          ('w' ∈ text.toList → t.locks.write = false) ∧
          client.utf8ByteSize ≤ maxClientName) ∧
      (∀ fault, b.refusal? path client text = some fault →
        b.acquire path client text call =
          pure (.error { fault, call },
            b.afterFailure (.acquire path client text call))) ∧
      (b.refusal? path client text = none →
        ∃ t name access, b.transports.find? path = some t ∧ name.str = client ∧
          Access.parse? text = some access ∧
          ∀ es result b', (b.acquire path client text call).Yields es (result, b') ↔
            result = .ok () ∧ ∃ t', t.TakenOn name access call b.nextOwner es t' ∧
              b' = { b.store t' with nextOwner := b.nextOwner.next }) := by
  refine ⟨?_, fun fault h => Broker.acquire_of_refusal run.distinct run.room h,
    fun h => ?_⟩
  · simp only [Broker.refusal?_eq_none_iff, Transport.refusal?_eq_none_iff]
  · obtain ⟨t, hfind, hno⟩ := Broker.refusal?_eq_none_iff.mp h
    have hmem := (Registry.find?_eq_some hfind).1
    obtain ⟨name, access, hname, hparse, hyields⟩ :=
      Broker.acquire_of_no_refusal run.distinct (run.room t hmem)
        (run.engaged t hmem) hfind hno
    exact ⟨t, name, access, hfind, hname, hparse, hyields⟩

/-- One client reads. -/
def Scene.reader : List (Script × Operation) :=
  [({}, .create speaker device []), ({}, acquire ":1" "r" 1)]

/-- While one client reads, another one is refused to read, and is let in to write.
No start can be begun for it, so that its watch is ended and its call is answered,
and the stream lock stays with the reader. -/
theorem Run.writer_is_let_in_and_undone :
    ∃ steps b name access es, ∃ t t' : Transport, Run (.empty {}) steps b ∧
      b.acquire "/dev/fd0" ":2" "r" ⟨2⟩ =
        pure (.error { fault := .permissionDenied, call := ⟨2⟩ },
          b.afterFailure (.acquire "/dev/fd0" ":2" "r" ⟨2⟩)) ∧
      b.refusal? "/dev/fd0" ":2" "w" = none ∧ b.transports.find? "/dev/fd0" = some t ∧
      t.TakenOn name access ⟨2⟩ ⟨1⟩ es t' ∧
      es.map Exchange.call = [.watch name ⟨⟨0⟩, ⟨1⟩⟩, .startStream ⟨1⟩ 1 ⟨⟨0⟩, ⟨1⟩⟩,
        .unwatch ⟨1⟩, .reply ⟨2⟩ (.failure .resumeFailed)] := by
  have run := Broker.run_play Script.peers (.empty {}) Scene.reader
  have hread :
      ((Broker.empty {}).played Script.peers Scene.reader).refusal?
        "/dev/fd0" ":2" "r" = some .permissionDenied := by decide
  have hwrite :
      ((Broker.empty {}).played Script.peers Scene.reader).refusal?
        "/dev/fd0" ":2" "w" = none := by decide
  have hnext :
      ((Broker.empty {}).played Script.peers Scene.reader).nextOwner = ⟨1⟩ := by
    decide
  have hcalls :
      ((((Broker.empty {}).played Script.peers Scene.reader).acquire
          "/dev/fd0" ":2" "w" ⟨2⟩).run
        Script.peers { starts := false }).exchanges.map Exchange.call =
        [.watch ⟨":2", by decide⟩ ⟨⟨0⟩, ⟨1⟩⟩, .startStream ⟨1⟩ 1 ⟨⟨0⟩, ⟨1⟩⟩,
          .unwatch ⟨1⟩, .reply ⟨2⟩ (.failure .resumeFailed)] := by decide
  generalize (Broker.empty {}).played Script.peers Scene.reader = b
    at run hread hwrite hnext hcalls
  have hyields := yields_run Script.peers (b.acquire "/dev/fd0" ":2" "w" ⟨2⟩)
    { starts := false }
  have hdenied := (run.acquire_outcome "/dev/fd0" ":2" "r" ⟨2⟩).2.1 _ hread
  obtain ⟨t, name, access, hfind, hname, -, htakes⟩ :=
    (run.acquire_outcome "/dev/fd0" ":2" "w" ⟨2⟩).2.2 hwrite
  obtain ⟨-, t', taken, -⟩ := (htakes _ _ _).mp hyields
  obtain rfl : name = ⟨":2", by decide⟩ := Text.ext hname
  exact ⟨_, b, _, access, _, t, t', run, hdenied, hwrite, hfind, hnext ▸ taken,
    hcalls⟩

end AudioBroker
