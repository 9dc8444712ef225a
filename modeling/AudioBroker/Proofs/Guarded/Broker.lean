import AudioBroker.Proofs.Guarded.Transport
import AudioBroker.Proofs.Numbers
import AudioBroker.Proofs.Sharing

/-!
# The broker with every table checked at each use

The operations of the broker, written down with the checked operations of its
transports. They break off where a transport that was found by its path is not found
by its number, and where a new transport finds its number taken or the registry
full.

- `Registry.add!`: what is stored in the registry for the first time.
- `Broker.transportAt!`: a transport by its path, and then by its number.
- `Broker.perform!`: an operation carried out.
- `Broker.Sound`: what has to be true of a broker for none of its operations to
  break off.
- `Run.nothing_breaks_off`: every run keeps to it until a counter starts over.
-/

namespace AudioBroker

open Dialogue Guarded

/-- Stores a transport under a number that nobody has. -/
def Registry.add! (r : Registry) (t : Transport) : Guarded Registry :=
  match r.get? t.id with
  | some _ => need none
  | none => need (r.push? t)

namespace Broker

variable {b b' : Broker} {path client : String}

/-! ### The operations -/

/-- The transport at a path. Once it was found by its path, it has to be found by
its number. -/
def transportAt! (b : Broker) (path : String) : Guarded (Option Transport) :=
  match b.transports.find? path with
  | none => pure none
  | some t => some <$> need (b.transports.get? t.id)

/-- Creates a transport and publishes it. -/
def create! (b : Broker) (endpoint : Endpoint) (device : Device)
    (configuration : List UInt8) :
    Guarded (Except Fault TransportId × Broker) :=
  if b.transports.isFull then pure (.error .outOfResources, b)
  else match Transport.create b.nextTransport endpoint device configuration
      b.options with
    | .error fault => pure (.error fault, b)
    | .ok t => do
      if ← of (Call.register t.path).make then
        let transports ← b.transports.add! t
        return (.ok t.id, { b with nextTransport := b.nextTransport.next,
                                   transports })
      else return (.error .registrationFailed, b)

/-- Withdraws a transport. -/
def remove! (b : Broker) (id : TransportId) : Guarded (Bool × Broker) :=
  match b.transports.get? id with
  | none => pure (false, b)
  | some t => do
    of (makeAll [.unregister t.path])
    let t ← t.endAll!
    of (makeAll t.backend.closeCalls)
    return (true, { b with transports := b.transports.erase id })

/-- A client asks for access to the transport at a path. -/
def acquire! (b : Broker) (path client access : String) (call : PendingCall) :
    Guarded (Except Rejection Unit × Broker) := do
  match ← b.transportAt! path with
  | none => return (.error { fault := .doesNotExist, call }, b)
  | some t =>
    let (result, t) ← t.acquire! client access call b.nextOwner
    return (result, { b.store t with nextOwner := b.nextOwner.next })

/-- A client gives back access to the transport at a path. -/
def release! (b : Broker) (path client access : String) :
    Guarded (Except Fault Unit × Broker) := do
  match ← b.transportAt! path with
  | none => return (.error .doesNotExist, b)
  | some t =>
    let (result, t) ← t.release! client access
    return (result, b.store t)

/-- A client writes a property of the transport at a path. -/
def setProperty! (b : Broker) (path name : String) (value : Value) :
    Guarded (Except Fault Unit) := do
  match ← b.transportAt! path with
  | none => return .error .doesNotExist
  | some t => return t.setProperty name value

/-- The client of an owner left. -/
def exit! (b : Broker) (token : Token) : Guarded (Bool × Broker) :=
  match b.transports.get? token.transport with
  | none => pure (false, b)
  | some t => do
    let (known, t) ← t.exit! token.owner
    return (known, b.store t)

/-- Tears down an owner that is marked for it. -/
def endScheduled! (b : Broker) (token : Token) : Guarded (Bool × Broker) :=
  match b.transports.get? token.transport with
  | none => pure (false, b)
  | some t => do
    let (ended, t) ← t.endScheduled! token.owner
    return (ended, b.store t)

/-- Puts an owner into the queue of those that are torn down later, or tears it
down. -/
def defer! (b : Broker) (token : Token) : Guarded Broker :=
  match b.deferred.push? token with
  | some deferred => pure { b with deferred }
  | none => do
    let (_, b) ← b.endScheduled! token
    return b

/-- The start for an owner of `t` has ended, with or without success. -/
def complete! (b : Broker) (t : Transport) (token : Token) (success : Bool) :
    Guarded Broker := do
  let (completion, t) ← t.complete! token.owner success
  if completion = .deferred then (b.store t).defer! token else return b.store t

/-- The start of an A2DP stream has ended. -/
def a2dpResumed! (b : Broker) (token : Token) (report : ResumeReport) :
    Guarded Broker :=
  match b.transports.get? token.transport with
  | none => pure b
  | some t =>
    if t.backend.isA2dp then b.complete! t token report.isStarted else pure b

/-- A voice link has been connected, or has failed to be. -/
def voiceConnected! (b : Broker) (token : Token) (connected : Bool) :
    Guarded Broker :=
  match b.transports.get? token.transport with
  | none => pure b
  | some t => if t.backend.isA2dp then pure b else b.complete! t token connected

/-- Tears down those of the given owners that are still marked for it, and counts
them. -/
def endEach! (b : Broker) : List Token → Guarded (Nat × Broker)
  | [] => pure (0, b)
  | token :: rest => do
    let (ended, b) ← b.endScheduled! token
    let (count, b) ← b.endEach! rest
    return (if ended then count + 1 else count, b)

/-- Empties the queue of the owners that are torn down later. -/
def runDeferred! (b : Broker) : Guarded (Nat × Broker) :=
  { b with deferred := ∅ }.endEach! b.deferred.toList

/-- Carries out a method call and answers it. -/
def dispatch! (b : Broker) (path client : String) (call : PendingCall)
    (method : Method) :
    Guarded Broker :=
  match method with
  | .getProperties => of (b.dispatch path client call .getProperties)
  | .acquire access => do
    let (result, b) ← b.acquire! path client access.str call
    match result with
    | .ok () => return b
    | .error rejection =>
      of (makeAll [.reply rejection.call (.failure rejection.fault)])
      return b
  | .release access => do
    let (result, b) ← b.release! path client access.str
    of (makeAll [.reply call (.ofResult result)])
    return b
  | .setProperty name value => do
    let result ← b.setProperty! path name.str value
    of (makeAll [.reply call (.ofResult result)])
    return b

/-- Carries out an event. -/
def handle! (b : Broker) (event : Event) : Guarded Broker :=
  match event with
  | .call path client call method => b.dispatch! path.str client.str call method
  | .exited token => Prod.snd <$> b.exit! token
  | .a2dpResumed token report => b.a2dpResumed! token report
  | .voiceConnected token connected => b.voiceConnected! token connected
  | .delayed transport delay => of (Prod.snd <$> b.reportDelay transport delay)

/-- Carries out an operation. Those that use no place and store nothing new are as
they are. -/
def perform! (b : Broker) (op : Operation) : Guarded (op.Result × Broker) :=
  match op with
  | .create endpoint device configuration => b.create! endpoint device configuration
  | .remove id => b.remove! id
  | .acquire path client access call => b.acquire! path client access call
  | .release path client access => b.release! path client access
  | .properties path => of (b.perform (.properties path))
  | .setProperty path name value => (·, b) <$> b.setProperty! path name value
  | .exit token => b.exit! token
  | .a2dpResumed token report => ((), ·) <$> b.a2dpResumed! token report
  | .voiceConnected token connected => ((), ·) <$> b.voiceConnected! token connected
  | .reportDelay id delay => of (b.reportDelay id delay)
  | .runDeferred => b.runDeferred!
  | .dispatch path client call method =>
    ((), ·) <$> b.dispatch! path client call method
  | .handle event => ((), ·) <$> b.handle! event

/-! ### None of them breaks off -/

/-- What an operation relies on. -/
structure Sound (b : Broker) : Prop where
  distinct : b.transports.Distinct
  /-- Every transport has room for an owner. -/
  room : ∀ t ∈ b.transports.toList, t.owners.toList.length < maxOwners
  /-- The number of the next transport is not taken. -/
  unused : b.transports.get? b.nextTransport = none

theorem transportAt!_eq (h : b.transports.Distinct) (path : String) :
    b.transportAt! path = pure (b.transportAt? path) := by
  rw [transportAt!, transportAt?_eq h]
  cases hfind : b.transports.find? path with
  | none => rfl
  | some t =>
    dsimp only
    rw [h.get?_of_mem (Registry.find?_eq_some hfind).1]
    rfl

/-- A transport under a number that nobody has is added at the end, if there is
room. -/
theorem add!_eq {r : Registry} {t : Transport} (unused : r.get? t.id = none)
    (room : r.isFull = false) :
    ∃ r', r.insert? t = some r' ∧ r'.toList = r.toList ++ [t] ∧
      r.add! t = pure r' := by
  obtain ⟨r', hinsert, hpush, hlast⟩ := Registry.insert?_of_unused unused room
  refine ⟨r', hinsert, hlast, ?_⟩
  rw [Registry.add!, unused]
  simp only [hpush, need_some]

/-- A new transport displaces none where its number is unused, so that there is room
for it. -/
theorem create!_eq (unused : b.transports.get? b.nextTransport = none)
    (endpoint : Endpoint) (device : Device) (configuration : List UInt8) :
    b.create! endpoint device configuration = of
      (b.create endpoint device configuration) := by
  rw [create!, create]
  cases hfull : b.transports.isFull with
  | true => exact (of_pure _).symm
  | false =>
    rw [if_neg Bool.false_ne_true, if_neg Bool.false_ne_true]
    cases hcreate :
        Transport.create b.nextTransport endpoint device configuration b.options with
    | error fault => exact (of_pure _).symm
    | ok t =>
      obtain ⟨r', hinsert, -, hadd⟩ :=
        add!_eq ((Transport.create_eq_ok hcreate).1 ▸ unused) hfull
      refine of_bind_congr ?_
      intro es registered _
      cases registered with
      | false => exact (of_pure _).symm
      | true => simp only [if_true, hadd, hinsert, pure_bind, of_pure]

theorem remove!_eq (b : Broker) (id : TransportId) :
    b.remove! id = of (b.remove id) := by
  rw [remove!, remove]
  cases b.transports.get? id with
  | none => exact (of_pure _).symm
  | some t => simp only [Transport.endAll!_eq, of_bind, of_pure]

/-- Where a live transport has room for an owner, a request for access never runs
out of it. -/
theorem acquire!_eq (distinct : b.transports.Distinct)
    (room : ∀ t ∈ b.transports.toList, t.owners.toList.length < maxOwners)
    (path client access : String) (call : PendingCall) :
    b.acquire! path client access call = of (b.acquire path client access call) := by
  rw [acquire!, transportAt!_eq distinct, pure_bind, acquire]
  cases h : b.transportAt? path with
  | none => exact (of_pure _).symm
  | some t =>
    have hlive := Registry.get?_eq_some (get?_of_transportAt? h)
    simp only [Transport.acquire!_eq (room t hlive.1), of_bind, of_pure]

theorem release!_eq (distinct : b.transports.Distinct) (path client access : String) :
    b.release! path client access = of (b.release path client access) := by
  rw [release!, transportAt!_eq distinct, pure_bind, release]
  cases b.transportAt? path with
  | none => exact (of_pure _).symm
  | some t => simp only [Transport.release!_eq, of_bind, of_pure]

theorem setProperty!_eq (distinct : b.transports.Distinct) (path name : String)
    (value : Value) :
    b.setProperty! path name value = pure (b.setProperty path name value) := by
  rw [setProperty!, transportAt!_eq distinct, pure_bind, setProperty]
  cases b.transportAt? path <;> rfl

theorem exit!_eq (b : Broker) (token : Token) :
    b.exit! token = of (b.exit token) := by
  rw [exit!, exit]
  cases b.transports.get? token.transport with
  | none => exact (of_pure _).symm
  | some t => simp only [Transport.exit!_eq, of_bind, of_pure]

theorem endScheduled!_eq (b : Broker) (token : Token) :
    b.endScheduled! token = of (b.endScheduled token) := by
  rw [endScheduled!, endScheduled]
  cases b.transports.get? token.transport with
  | none => exact (of_pure _).symm
  | some t => simp only [Transport.endScheduled!_eq, of_bind, of_pure]

/-- A full queue is found out before the token is put in. -/
theorem defer!_eq (b : Broker) (token : Token) :
    b.defer! token = of (b.defer token) := by
  rw [defer!, defer]
  cases b.deferred.push? token with
  | some deferred => exact (of_pure _).symm
  | none => simp only [endScheduled!_eq, of_bind, of_pure]

theorem complete!_eq (b : Broker) (t : Transport) (token : Token) (success : Bool) :
    b.complete! t token success = of (b.complete t token success) := by
  rw [complete!, complete, Transport.complete!_eq]
  refine of_bind_congr ?_
  rintro es ⟨completion, t'⟩ -
  dsimp only
  split
  · exact defer!_eq _ token
  · exact (of_pure _).symm

theorem a2dpResumed!_eq (b : Broker) (token : Token) (report : ResumeReport) :
    b.a2dpResumed! token report = of (b.a2dpResumed token report) := by
  rw [a2dpResumed!, a2dpResumed]
  cases b.transports.get? token.transport with
  | none => exact (of_pure _).symm
  | some t =>
    dsimp only
    split
    · exact complete!_eq b t token report.isStarted
    · exact (of_pure _).symm

theorem voiceConnected!_eq (b : Broker) (token : Token) (connected : Bool) :
    b.voiceConnected! token connected = of (b.voiceConnected token connected) := by
  rw [voiceConnected!, voiceConnected]
  cases b.transports.get? token.transport with
  | none => exact (of_pure _).symm
  | some t =>
    dsimp only
    split
    · exact (of_pure _).symm
    · exact complete!_eq b t token connected

theorem endEach!_eq (b : Broker) (tokens : List Token) :
    b.endEach! tokens = of (b.endEach tokens) := by
  induction tokens generalizing b with
  | nil => exact (of_pure _).symm
  | cons token rest ih =>
    rw [endEach!, endEach, endScheduled!_eq]
    simp only [ih, of_bind, of_pure]

theorem dispatch!_eq (h : b.Sound) (path client : String) (call : PendingCall)
    (method : Method) :
    b.dispatch! path client call method = of
      (b.dispatch path client call method) := by
  cases method with
  | getProperties => rfl
  | acquire access =>
    rw [dispatch!, dispatch, acquire!_eq h.distinct h.room]
    refine of_bind_congr ?_
    rintro es ⟨result, b'⟩ -
    cases result with
    | ok => exact (of_pure _).symm
    | error rejection => simp only [of_bind, of_pure]
  | release access =>
    rw [dispatch!, dispatch, release!_eq h.distinct]
    simp only [of_bind, of_pure]
  | setProperty name value =>
    rw [dispatch!, dispatch, setProperty!_eq h.distinct]
    simp only [of_bind, of_pure, pure_bind]

theorem handle!_eq (h : b.Sound) (event : Event) :
    b.handle! event = of (b.handle event) := by
  cases event with
  | call path client call method =>
    exact dispatch!_eq h path.str client.str call method
  | exited token =>
    rw [handle!, handle, exit!_eq, ← of_map]
    rfl
  | a2dpResumed token report => exact a2dpResumed!_eq b token report
  | voiceConnected token connected => exact voiceConnected!_eq b token connected
  | delayed transport delay => rfl

/-- No operation breaks off in a sound state. -/
theorem perform!_eq (h : b.Sound) (op : Operation) :
    b.perform! op = of (b.perform op) := by
  -- `Sound` says for each lookup that what is looked for is there
  cases op with
  | create endpoint device configuration =>
    exact create!_eq h.unused endpoint device configuration
  | remove id => exact remove!_eq b id
  | acquire path client access call =>
    exact acquire!_eq h.distinct h.room path client access call
  | release path client access => exact release!_eq h.distinct path client access
  | properties path => rfl
  | setProperty path name value =>
    show (·, b) <$> b.setProperty! path name value = of (pure _)
    rw [setProperty!_eq h.distinct, map_pure, of_pure]
  | exit token => exact exit!_eq b token
  | a2dpResumed token report =>
    show ((), ·) <$> b.a2dpResumed! token report = _
    rw [a2dpResumed!_eq, ← of_map]
    rfl
  | voiceConnected token connected =>
    show ((), ·) <$> b.voiceConnected! token connected = _
    rw [voiceConnected!_eq, ← of_map]
    rfl
  | reportDelay id delay => rfl
  | runDeferred => exact endEach!_eq _ _
  | dispatch path client call method =>
    show ((), ·) <$> b.dispatch! path client call method = _
    rw [dispatch!_eq h, ← of_map]
    rfl
  | handle event =>
    show ((), ·) <$> b.handle! event = _
    rw [handle!_eq h, ← of_map]
    rfl

end Broker

/-! ### Every run -/

section Runs

variable {options : Options} {steps : List Step} {b : Broker}

/-- Until a counter starts over every state is sound. -/
theorem Run.sound (run : Run (.empty options) steps b)
    (unwrapped : Unwrapped steps) : b.Sound where
  distinct := run.distinct
  room := run.room
  unused := (run.numbered unwrapped).get?_nextTransport

/-- Until a counter starts over, every operation in every state finds whatever it
takes for granted: with all its tables checked at each use it never breaks off, and
does what it does without. So no client is turned down for want of room, a new
transport is stored and takes nobody's place, and what is found by its path is found
by its number. -/
theorem Run.nothing_breaks_off (run : Run (.empty options) steps b)
    (unwrapped : Unwrapped steps) :
    (∀ op es r, (b.perform! op).run.Yields es r ↔
        ∃ result, r = some result ∧ (b.perform op).Yields es result) ∧
      (∀ path client text call es rejection b',
        (b.acquire path client text call).Yields es (.error rejection, b') →
          rejection.fault ≠ .outOfResources) ∧
      (∀ t, t.id = b.nextTransport → b.transports.isFull = false →
        ∃ r, b.transports.insert? t = some r ∧
          r.toList = b.transports.toList ++ [t]) ∧
      ∀ path t, b.transports.find? path = some t →
        b.transports.get? t.id = some t := by
  have hsound := run.sound unwrapped
  refine ⟨fun op es r => ?_, ?_, ?_, ?_⟩
  · rw [Broker.perform!_eq hsound]
    exact yields_of
  · intro path client text call es rejection b' h
    rcases Broker.acquire_cases h with ⟨-, hresult, -⟩ | ⟨t, t', ht, h₁, -⟩
    · cases hresult
      exact nofun
    · rcases Transport.acquire_cases h₁
        with ⟨fault, hfault, hresult, -⟩ | ⟨_, _, -, hresult, -⟩
      · cases hresult
        have hlive := Registry.get?_eq_some (Broker.get?_of_transportAt? ht)
        exact Transport.fault_of_admission (hsound.room t hlive.1) hfault
      · cases hresult
  · intro t hid hroom
    obtain ⟨r, hinsert, hlist, -⟩ := Broker.add!_eq (hid ▸ hsound.unused) hroom
    exact ⟨r, hinsert, hlist⟩
  · exact fun path t hfind => hsound.distinct.get?_of_mem
      (Registry.find?_eq_some hfind).1

/-- A transport with two owners is withdrawn, and both are torn down at places that
are there. -/
theorem Run.two_owners_end_unbroken :
    ∃ steps b es result, Run (.empty {}) steps b ∧ Unwrapped steps ∧
      b.transports.toList.map (fun t => t.owners.size) = [2] ∧ result.1 = true ∧
      (b.perform! (.remove ⟨0⟩)).run.Yields es (some result) := by
  have run := Broker.run_play Script.peers (.empty {}) Scene.readerAndWriter
  have hunwrapped :
      Unwrapped ((Broker.empty {}).play Script.peers Scene.readerAndWriter) := by
    decide
  have howners :
      ((Broker.empty {}).played Script.peers
        Scene.readerAndWriter).transports.toList.map
      (fun t => t.owners.size) = [2] := by decide
  have hremoved :
      ((((Broker.empty {}).played Script.peers Scene.readerAndWriter).perform
      (.remove ⟨0⟩)).run Script.peers {}).value.1 = true := by decide
  generalize (Broker.empty {}).played Script.peers Scene.readerAndWriter = b
    at run howners hremoved
  have hyields := ((run.nothing_breaks_off hunwrapped).1 _ _ _).mpr
    ⟨_, rfl, yields_run Script.peers (b.perform (.remove ⟨0⟩)) {}⟩
  exact ⟨_, b, _, _, run, hunwrapped, howners, hremoved, hyields⟩

end Runs

end AudioBroker
