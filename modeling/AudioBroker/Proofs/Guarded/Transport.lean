import AudioBroker.Proofs.Transport.Admission
import AudioBroker.Proofs.Transport.Move

/-!
# Transports whose tables are checked at every use

An operation looks up the place of an owner once, and comes back to that place after
it has talked to the peers and changed the transport. Here the same operations are
written down step by step, and every use of a place breaks off unless the place is
in the table at that moment.

- `Guarded α`: a dialogue that may break off; `Guarded.of` is one that does not.
- `Guarded.need`: what has to be there.
- `Transport.acquire!`, `Transport.release!`, `Transport.exit!`,
  `Transport.endScheduled!`, `Transport.endAll!`, `Transport.complete!`: the
  operations on the owners of a transport.
- `Transport.acquire!_eq` and so on: none of them breaks off, and all of them do
  what the operations without checks do.
-/

namespace AudioBroker

open Dialogue

/-! ### Dialogues that may break off -/

/-- A dialogue that breaks off where something that it relies on is missing. -/
abbrev Guarded (α : Type) : Type := OptionT Dialogue α

namespace Guarded

variable {α β : Type}

/-- A dialogue that does not break off. -/
def of (d : Dialogue α) : Guarded α := OptionT.lift d

/-- What has to be there. -/
def need (a? : Option α) : Guarded α := OptionT.mk (pure a?)

@[simp] theorem of_pure (a : α) : of (pure a) = pure a := OptionT.lift_pure a

@[simp] theorem need_some (a : α) : need (some a) = pure a := rfl

/-- A dialogue that goes on without a break does so in its parts. -/
theorem of_bind (d : Dialogue α) (f : α → Dialogue β) :
    of (d >>= f) = of d >>= fun a => of (f a) := by
  refine OptionT.ext ?_
  simp [of]

/-- What goes on after a dialogue has to agree only where the dialogue can end. -/
theorem of_bind_congr {d : Dialogue α} {f : α → Guarded β} {g : α → Dialogue β}
    (h : ∀ es a, d.Yields es a → f a = of (g a)) : of d >>= f = of (d >>= g) := by
  rw [of_bind]
  refine OptionT.ext ?_
  rw [of, OptionT.run_bind_lift, OptionT.run_bind_lift]
  induction d with
  | done a => exact congrArg OptionT.run (h [] a (.done a))
  | ask c next ih =>
    rw [ask_bind, ask_bind]
    congr 1
    funext r
    exact ih r fun es a ha => h _ a (.ask r ha)

theorem of_map (f : α → β) (d : Dialogue α) : of (f <$> d) = f <$> of d := by
  rw [← bind_pure_comp, ← bind_pure_comp, of_bind]
  simp

theorem of_makeAll_append (cs ds : List Call) :
    of (makeAll (cs ++ ds)) = of (makeAll cs) >>= fun _ => of (makeAll ds) := by
  rw [makeAll_append, of_bind]

/-- A dialogue that does not break off ends with what it would end with anyway. -/
theorem yields_of {d : Dialogue α} {es : List Exchange} {a? : Option α} :
    (of d).run.Yields es a? ↔ ∃ a, a? = some a ∧ d.Yields es a := by
  have hrun : (of d).run = d >>= fun a => pure (some a) := by simp [of]
  rw [hrun, yields_bind]
  constructor
  · rintro ⟨es₁, a, es₂, rfl, h, h'⟩
    obtain ⟨rfl, rfl⟩ := yields_pure.mp h'
    exact ⟨a, rfl, by simpa using h⟩
  · rintro ⟨a, rfl, h⟩
    exact ⟨es, a, [], by simp, h, .done _⟩

end Guarded

open Guarded

namespace Owner

/-- An owner for whom nothing is open yet. -/
def new (id : OwnerId) (name : ClientName) (access : Access) : Owner :=
  { id, name, access, watch := none, pending := none, scheduled := false }

/-- The owner once its client is watched and its call waits for an answer. -/
def await (o : Owner) (watch : Option WatchId) (call : PendingCall) : Owner :=
  { o with watch, pending := some { call := some call, request := none } }

/-- The owner once a start is under way for it. -/
def begin (o : Owner) (request : RequestId) : Owner :=
  { o with pending := o.pending.map fun p => { p with request := some request } }

end Owner

namespace Transport

variable {t : Transport} {i : Nat} {o : Owner} {id : OwnerId}

/-! ### The place of an owner -/

/-- The place of the first owner that satisfies `p`. -/
def placeOf? (t : Transport) (p : Owner → Bool) : Option Nat :=
  t.owners.toList.findIdx? p

/-- The transport with some directions free. -/
def free (t : Transport) (a : Access) : Transport := { t with locks := t.locks \ a }

/-- The owner at a place. -/
def owner! (t : Transport) (i : Nat) : Guarded Owner := need t.owners.toList[i]?

/-- Changes the owner at a place. -/
def modifyOwner! (t : Transport) (i : Nat) (f : Owner → Owner) :
    Guarded Transport := do
  let _ ← t.owner! i
  return t.modifyOwner i f

/-- Removes the owner at a place. -/
def removeOwner! (t : Transport) (i : Nat) : Guarded Transport := do
  let _ ← t.owner! i
  return { t with owners := t.owners.eraseIdx i }

/-- The owner at a place that is taken is there. -/
theorem owner!_eq (h : t.owners.toList[i]? = some o) : t.owner! i = pure o := by
  rw [owner!, h, need_some]

theorem modifyOwner!_eq (f : Owner → Owner) (h : t.owners.toList[i]? = some o) :
    t.modifyOwner! i f = pure (t.modifyOwner i f) := by
  rw [modifyOwner!, owner!_eq h, pure_bind]

theorem removeOwner!_eq (h : t.owners.toList[i]? = some o) :
    t.removeOwner! i = pure { t with owners := t.owners.eraseIdx i } := by
  rw [removeOwner!, owner!_eq h, pure_bind]

/-- The scan finds the place of the owner, and the owner is at that place. -/
theorem locate?_eq_map (t : Transport) (p : Owner → Bool) :
    (t.locate? p).map Prod.fst = t.placeOf? p := by
  rw [locate?, placeOf?]
  cases hi : t.owners.toList.findIdx? p with
  | none => rfl
  | some i =>
    obtain ⟨hlt, -, -⟩ := List.findIdx?_eq_some_iff_getElem.mp hi
    simp [List.getElem?_eq_getElem hlt]

theorem placeOf?_of_locate? {p : Owner → Bool} (h : t.locate? p = some (i, o)) :
    t.placeOf? p = some i := by
  rw [← locate?_eq_map, h]
  rfl

theorem placeOf?_of_locate?_eq_none {p : Owner → Bool} (h : t.locate? p = none) :
    t.placeOf? p = none := by
  rw [← locate?_eq_map, h]
  rfl

/-! ### The end of an owner -/

/-- Tears down the owner at a place, which is come back to for each thing that is
closed. -/
def endAt! (t : Transport) (i : Nat) : Guarded Transport := do
  let o ← t.owner! i
  let t ← (t.free o.access).modifyOwner! i fun o => { o with watch := none }
  of (makeAll (o.watch.toList.map .unwatch))
  let o ← t.owner! i
  let t ← t.modifyOwner! i Owner.answer
  of (makeAll (o.partingCalls t.backend t.device))
  let t ← t.removeOwner! i
  if t.owners.isEmpty then
    of (makeAll (t.backend.unlockCalls t.inUse t.device))
    return { t with inUse := false }
  else return t

/-- Tears down the first owner, `n` times. -/
def endFirst! (t : Transport) : Nat → Guarded Transport
  | 0 => pure t
  | n + 1 => do
    let t ← t.endAt! 0
    t.endFirst! n

/-- Tears down all owners, in their order. -/
def endAll! (t : Transport) : Guarded Transport := t.endFirst! t.owners.size

/-- An owner that is there can be torn down. -/
theorem endAt!_eq (h : t.owners.toList[i]? = some o) :
    t.endAt! i = of (t.endAt i) := by
  -- the owner keeps its place until it is removed
  let freed := t.free o.access
  let unwatched := freed.modifyOwner i fun o => { o with watch := none }
  let answered := unwatched.modifyOwner i Owner.answer
  have hfreed : freed.owners.toList[i]? = some o := h
  have hunwatched : unwatched.owners.toList[i]? = some { o with watch := none } :=
    getElem?_modifyOwner hfreed
  have hanswered :
      answered.owners.toList[i]? = some (Owner.answer { o with watch := none }) :=
    getElem?_modifyOwner hunwatched
  have hrest : answered.owners.eraseIdx i = t.owners.eraseIdx i :=
    (eraseIdx_modifyOwner unwatched i _).trans (eraseIdx_modifyOwner freed i _)
  have hcalls : o.partingCalls t.backend t.device = o.watch.toList.map .unwatch ++
      Owner.partingCalls { o with watch := none } t.backend t.device := rfl
  rw [endAt!, owner!_eq h, pure_bind, modifyOwner!_eq _ hfreed, pure_bind,
    owner!_eq hunwatched, endAt, partingCalls_eq h, without_eq h, hcalls,
    List.append_assoc, of_bind, of_makeAll_append, bind_assoc]
  congr 1
  funext _
  rw [pure_bind, modifyOwner!_eq _ hunwatched, pure_bind, removeOwner!_eq hanswered,
    of_makeAll_append, bind_assoc]
  congr 1
  funext _
  rw [pure_bind, hrest]
  cases hempty : (t.owners.eraseIdx i).isEmpty with
  | true =>
    simp only [if_true, Bool.not_true, Bool.and_false, of_pure]
    rfl
  | false =>
    simp only [Bool.false_eq_true, if_false, makeAll_nil, of_pure, pure_bind,
      Bool.not_false, Bool.and_true]
    rfl

/-- As many owners as there are can be torn down. -/
theorem endFirst!_eq {n : Nat} (h : n ≤ t.owners.toList.length) :
    t.endFirst! n = of (t.endFirst n) := by
  -- each end leaves one owner less, so that there is a first one as often as it is
  -- asked for
  induction n generalizing t with
  | zero => exact (of_pure t).symm
  | succ n ih =>
    have ho := List.getElem?_eq_getElem (Nat.lt_of_lt_of_le n.succ_pos h)
    have hrest : n ≤ (t.without 0).owners.toList.length := by
      rw [toList_owners_without,
        List.length_eraseIdx_of_lt (Nat.lt_of_lt_of_le n.succ_pos h)]
      omega
    rw [endFirst!, endFirst, endAt!_eq ho, endAt, bind_assoc]
    simp only [of_bind, of_pure, bind_assoc, pure_bind, ih hrest]

theorem endAll!_eq (t : Transport) : t.endAll! = of t.endAll :=
  endFirst!_eq (Nat.le_refl _)

/-- The end of an owner, and what the operation then comes back with. -/
theorem endAt!_pure {α : Type} {a : α} (h : t.owners.toList[i]? = some o) :
    (t.endAt! i >>= fun t₁ => pure (a, t₁)) = of
      (t.endAt i >>= fun t₁ => pure (a, t₁)) := by
  rw [endAt!_eq h, of_bind]
  simp only [of_pure]

/-- The client of an owner left. -/
def exit! (t : Transport) (id : OwnerId) : Guarded (Bool × Transport) :=
  match t.placeOf? fun o => o.id == id with
  | none => pure (false, t)
  | some i => do
    let t ← t.modifyOwner! i Owner.depart
    let t ← t.endAt! i
    return (true, t)

/-- An exit checks only places at which it has found an owner. -/
theorem exit!_eq (t : Transport) (id : OwnerId) : t.exit! id = of (t.exit id) := by
  cases h : t.owner? id with
  | none =>
    rw [exit!, exit, h, placeOf?_of_locate?_eq_none h, of_pure]
  | some io =>
    obtain ⟨i, o⟩ := io
    obtain ⟨ho, -⟩ := owner?_eq_some h
    rw [exit!, exit, h, placeOf?_of_locate? h]
    show (t.modifyOwner! i Owner.depart >>= _) = _
    rw [modifyOwner!_eq _ ho, pure_bind]
    exact endAt!_pure (getElem?_modifyOwner ho)

/-- Tears down an owner that is marked for it. -/
def endScheduled! (t : Transport) (id : OwnerId) : Guarded (Bool × Transport) :=
  match t.placeOf? fun o => o.id == id with
  | none => pure (false, t)
  | some i => do
    let o ← t.owner! i
    if o.scheduled then
      let t ← t.endAt! i
      return (true, t)
    else return (false, t)

theorem endScheduled!_eq (t : Transport) (id : OwnerId) :
    t.endScheduled! id = of (t.endScheduled id) := by
  cases h : t.owner? id with
  | none =>
    rw [endScheduled!, endScheduled, h, placeOf?_of_locate?_eq_none h, of_pure]
  | some io =>
    obtain ⟨i, o⟩ := io
    obtain ⟨ho, -⟩ := owner?_eq_some h
    rw [endScheduled!, endScheduled, h, placeOf?_of_locate? h]
    show (t.owner! i >>= _) = of (if o.scheduled then _ else _)
    rw [owner!_eq ho, pure_bind]
    split
    · exact endAt!_pure ho
    · exact (of_pure _).symm

/-! ### Acquiring -/

/-- One more owner, whose directions are taken. -/
def withOwner! (t : Transport) (o : Owner) : Guarded Transport := do
  let owners ← need (t.owners.push? o)
  return { t with owners, locks := t.locks ∪ o.access }

/-- The transport as a start of its backend leaves it. -/
def withStart (t : Transport) (start : Backend.Start) : Transport :=
  { t with backend := start.backend, inUse := start.inUse }

/-- Watches the client of the owner at a place and starts the stream for it. -/
def startAt! (t : Transport) (i : Nat) (name : ClientName) (call : PendingCall)
    (id : OwnerId) :
    Guarded Transport := do
  let watch ← of (Call.watch name (t.token id)).make
  let t ← t.modifyOwner! i (Owner.await · watch call)
  let start ← of (t.backend.start t.inUse t.device (t.token id))
  match start.request with
  | some request => (t.withStart start).modifyOwner! i (Owner.begin · request)
  | none => (t.withStart start).endAt! i

/-- A client asks for access. -/
def acquire! (t : Transport) (client access : String) (call : PendingCall)
    (id : OwnerId) :
    Guarded (Except Rejection Unit × Transport) :=
  if (t.placeOf? fun o => o.name.str == client).isSome then
    pure (.error { fault := .permissionDenied, call }, t)
  else match Access.parse? access with
    | none => pure (.error { fault := .permissionDenied, call }, t)
    | some wanted =>
      if wanted ∩ t.locks ≠ ∅ then pure
        (.error { fault := .permissionDenied, call }, t)
      else match Text.ofString? client with
        | none => pure (.error { fault := .invalidArguments, call }, t)
        | some name => do
          let taken ← t.withOwner! (.new id name wanted)
          let t ← taken.startAt! t.owners.size name call id
          return (.ok (), t)

theorem withOwner!_eq (room : t.owners.toList.length < maxOwners) (o : Owner) :
    t.withOwner! o = pure (t.withOwner o) := by
  have hpush :
      t.owners.push? o = some ⟨t.owners.toList ++ [o],
        BoundedList.length_snoc_le room⟩ :=
    BoundedList.push?_eq_some_iff.mpr ⟨room, rfl⟩
  rw [withOwner!, hpush, need_some, pure_bind, withOwner_eq room]

/-- A new owner is the last one. -/
theorem getElem?_withOwner (room : t.owners.toList.length < maxOwners) (o : Owner) :
    (t.withOwner o).owners.toList[t.owners.size]? = some o := by
  rw [withOwner_eq room]
  simp

/-- It makes no difference whether an owner is changed before or after it comes in. -/
theorem modifyOwner_withOwner (room : t.owners.toList.length < maxOwners)
    {f : Owner → Owner} (h : (f o).access = o.access) :
    (t.withOwner o).modifyOwner t.owners.size f = t.withOwner (f o) := by
  rw [withOwner_eq room, withOwner_eq room, modifyOwner, h]
  congr 1
  exact BoundedList.ext (BoundedList.modify_around t.owners.toList [] o)

/-- The owner comes in before the start is tried, or after it: the start does not
look at it. -/
theorem startAt!_eq (room : t.owners.toList.length < maxOwners) (name : ClientName)
    (access : Access) (call : PendingCall) (id : OwnerId) :
    (t.withOwner (.new id name access)).startAt! t.owners.size name call id =
      of (t.takeOn name access call id) := by
  -- what the start looks at is the same with the new owner in the table
  have hsame : ∀ o,
      (t.withOwner o).token id = t.token id ∧ (t.withOwner o).backend = t.backend ∧
      (t.withOwner o).inUse = t.inUse ∧ (t.withOwner o).device = t.device := by
    intro o
    rw [withOwner_eq room]
    exact ⟨rfl, rfl, rfl, rfl⟩
  have hstarted : ∀ o start, (t.withOwner o).withStart start = t.started start o := by
    intro o start
    rw [started_eq room, withOwner_eq room, withStart]
  -- both go through the watch and the start, and part only where a failed start
  -- ends the owner
  rw [startAt!, takeOn, of_bind, (hsame _).1]
  congr 1
  funext watch
  rw [modifyOwner!_eq _ (getElem?_withOwner room _), pure_bind,
    modifyOwner_withOwner room rfl, of_bind, (hsame _).1, (hsame _).2.1,
    (hsame _).2.2.1, (hsame _).2.2.2]
  congr 1
  funext start
  obtain ⟨backend, inUse, request?⟩ := start
  rw [hstarted]
  cases request? with
  | none => exact endAt!_eq (started_last room)
  | some request =>
    show (t.started _ _).modifyOwner! t.owners.size _ = _
    rw [modifyOwner!_eq _ (started_last room), started]
    exact congrArg pure (modifyOwner_withOwner (t := t.withStart _) room rfl)

/-- There is room for every client that is let in. -/
theorem acquire!_eq (room : t.owners.toList.length < maxOwners)
    (client access : String) (call : PendingCall) (id : OwnerId) :
    t.acquire! client access call id = of (t.acquire client access call id) := by
  have hplace :
      (t.placeOf? fun o => o.name.str == client).isSome =
        (t.ownerOf? client).isSome := by
    rw [ownerOf?, ← locate?_eq_map, Option.isSome_map]
  rw [acquire!, acquire, admission, hplace, isFull_of_room room]
  split
  · exact (of_pure _).symm
  · cases Access.parse? access with
    | none => exact (of_pure _).symm
    | some wanted =>
      dsimp only
      split
      · exact (of_pure _).symm
      · cases Text.ofString? client with
        | none => exact (of_pure _).symm
        | some name =>
          show (t.withOwner! _ >>= _) = of (t.takeOn name wanted call id >>= _)
          rw [withOwner!_eq room, pure_bind, startAt!_eq room, of_bind]
          simp only [of_pure]

/-! ### Giving back -/

/-- A client gives back access. -/
def release! (t : Transport) (client access : String) :
    Guarded (Except Fault Unit × Transport) :=
  match t.placeOf? (fun o => o.name.str == client), Access.parse? access with
  | some i, some a => do
    let o ← t.owner! i
    if a = o.access then
      let t ← t.endAt! i
      return (.ok (), t)
    else if a ⊆ o.access then
      let t ← (t.free a).modifyOwner! i (Owner.narrow · a)
      return (.ok (), t)
    else return (.error .permissionDenied, t)
  | _, _ => pure (.error .permissionDenied, t)

theorem release!_eq (t : Transport) (client access : String) :
    t.release! client access = of (t.release client access) := by
  cases h : t.ownerOf? client with
  | none => rw [release!, release, h, placeOf?_of_locate?_eq_none h, of_pure]
  | some io =>
    obtain ⟨i, o⟩ := io
    obtain ⟨ho, -⟩ := ownerOf?_eq_some h
    rw [release!, release, h, placeOf?_of_locate? h]
    cases Access.parse? access with
    | none => exact (of_pure _).symm
    | some a =>
      show (t.owner! i >>= _) = of (if _ then _ else if _ then _ else _)
      rw [owner!_eq ho, pure_bind]
      split
      · exact endAt!_pure ho
      · split
        · have hfree : (t.free a).owners.toList[i]? = some o := ho
          rw [modifyOwner!_eq _ hfree, pure_bind]
          exact (of_pure _).symm
        · exact (of_pure _).symm

/-! ### The end of a start -/

/-- Puts the open stream in place and sends its descriptor to the owner at a place,
whose call is only looked up then. -/
def deliver! (t : Transport) (i : Nat) : Guarded (Bool × Transport) := do
  match ← of (t.backend.stream t.device) with
  | none => return (false, t)
  | some s =>
    let t ← of (t.install s)
    let o ← t.owner! i
    let t ← t.modifyOwner! i Owner.answer
    match o.unspent? with
    | none => return (false, t)
    | some call =>
      let delivery ← of (Call.reply call (.descriptor s.fd)).make
      return (decide (delivery = .delivered), t)

/-- The reported end of a start, before anything is torn down. -/
def attempt! (t : Transport) (i : Nat) (success : Bool) :
    Guarded (Bool × Transport) := do
  let settled ← t.modifyOwner! i Owner.settle
  if success then settled.deliver! i else return (false, settled)

/-- Ends the owner at a place after its start failed, now or later. -/
def fail! (t : Transport) (i : Nat) : Guarded (Completion × Transport) :=
  if t.backend.defersTeardown then do
    let t ← t.modifyOwner! i Owner.schedule
    return (.deferred, t)
  else do
    let t ← t.endAt! i
    return (.ended, t)

/-- The start for an owner has ended, with or without success. -/
def complete! (t : Transport) (id : OwnerId) (success : Bool) :
    Guarded (Completion × Transport) :=
  match t.placeOf? fun o => o.id == id with
  | none => pure (.stale, t)
  | some i => do
    let o ← t.owner! i
    if o.scheduled ∨ o.pending = none then return (.stale, t)
    else
      let (delivered, t) ← t.attempt! i success
      if delivered then return (.delivered, t)
      else t.fail! i

/-- The stream that is installed leaves the owner in its place, with its call. -/
theorem deliver!_eq (h : t.owners.toList[i]? = some o) :
    t.deliver! i = of (t.deliver i o.unspent?) := by
  rw [deliver!, deliver]
  refine of_bind_congr fun _ stream? _ => ?_
  cases stream? with
  | none => exact (of_pure _).symm
  | some s =>
    refine of_bind_congr fun _ t' installed => ?_
    have ho : t'.owners.toList[i]? = some o := by
      rcases install_cases installed with ⟨-, -, rfl⟩ | ⟨-, -, rfl⟩ <;> exact h
    rw [owner!_eq ho, pure_bind, modifyOwner!_eq _ ho, pure_bind]
    cases o.unspent? with
    | none => exact (of_pure _).symm
    | some call => exact of_bind_congr fun _ _ _ => (of_pure _).symm

/-- The owner of a start that failed is still at its place. -/
theorem fail!_eq (h : t.owners.toList[i]? = some o) : t.fail! i = of (t.fail i) := by
  rw [fail!, fail]
  split
  · rw [modifyOwner!_eq _ h, pure_bind]
    exact (of_pure _).symm
  · exact endAt!_pure h

/-- A report finds its owner where it was, with what is pending. -/
theorem attempt!_eq {p : Pending} (ho : t.owners.toList[i]? = some o)
    (hp : o.pending = some p) (success : Bool) :
    t.attempt! i success = of (t.attempt i p success) := by
  rw [attempt!, modifyOwner!_eq _ ho, pure_bind, attempt]
  have hcall : o.settle.unspent? = p.call := by
    simp [Owner.unspent?, Owner.settle, hp]
  cases success with
  | false => exact (of_pure _).symm
  | true => exact hcall ▸ deliver!_eq (getElem?_modifyOwner ho)

/-- What is tried for an owner leaves it in its place, where it is ended if need
be. -/
theorem complete!_eq (t : Transport) (id : OwnerId) (success : Bool) :
    t.complete! id success = of (t.complete id success) := by
  cases h : t.owner? id with
  | none =>
    rw [complete!, complete, awaiting?, h, placeOf?_of_locate?_eq_none h, of_pure]
  | some io =>
    obtain ⟨i, o⟩ := io
    obtain ⟨ho, -⟩ := owner?_eq_some h
    rw [complete!, placeOf?_of_locate? h]
    show (t.owner! i >>= _) = _
    rw [owner!_eq ho, pure_bind]
    split
    · -- nobody waits under the token: the lookup of `awaiting?` fails as well
      next hstale =>
      have hnone : t.awaiting? id = none := by
        rw [awaiting?, h]
        rcases hstale with hs | hp
        · simp [hs]
        · simp [hp]
      rw [complete, hnone]
      exact (of_pure _).symm
    · next hwaits =>
      obtain ⟨hs, hp⟩ := not_or.mp hwaits
      obtain ⟨p, hp⟩ := Option.ne_none_iff_exists'.mp hp
      have hsome : t.awaiting? id = some (i, p) :=
        awaiting?_eq_some_iff.mpr ⟨o, h, by simpa using hs, hp⟩
      have hcomplete :
          of (t.complete id success) = of (t.attempt i p success >>= fun a =>
          if a.1 then pure (.delivered, a.2) else a.2.fail i) := by
        rw [complete, hsome]
        cases success <;> rfl
      rw [hcomplete, attempt!_eq ho hp]
      -- a failed attempt ends the owner at the place where the attempt has left it
      refine of_bind_congr ?_
      rintro es ⟨delivered, t₁⟩ attempted
      obtain ⟨o₁, ho₁⟩ := attempt_owner ho attempted
      cases delivered with
      | true => exact (of_pure _).symm
      | false => exact fail!_eq ho₁

end Transport

end AudioBroker
