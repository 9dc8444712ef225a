import AudioBroker.Proofs.Account
import AudioBroker.Proofs.Broker.Lineage
import AudioBroker.Proofs.Numbers
import AudioBroker.Proofs.Transport.Tally

/-!
# Every watch is removed or fires

The client of an owner is watched for as long as the owner lives. The watch ends
with the owner: it is removed, unless the owner ends because it fired. Watches are
kept count of by their number, over everything that is said to the bus.

- `watched`, `unwatched`, `fired`: the watches that were set up, removed, and that
  fired.
- `watches`: the watches that the owners of transports keep.
- `Transport.Move.watches_eq`: every move adds up.
- `Run.watches_balance`: what it comes to in every run.
-/

namespace AudioBroker

open Dialogue

/-- The watch that was set up; a watch that is refused has no number. -/
def Exchange.watched? : Exchange → Option WatchId
  | ⟨.watch _ _, w⟩ => w
  | _ => none

/-- The watch that a call removes. -/
def Call.unwatched? : Call → Option WatchId
  | .unwatch w => some w
  | _ => none

/-- The watch that fired, if a client left. -/
def Incident.fired? : Incident → Option WatchId
  | .departed o => o.watch
  | _ => none

/-- The watches that were set up. -/
def watched (es : List Exchange) : List WatchId := es.filterMap Exchange.watched?

/-- The watches that were removed. -/
def unwatched (es : List Exchange) : List WatchId :=
  es.filterMap fun e => e.call.unwatched?

/-- The watches that fired. -/
def fired (ls : List Incident) : List WatchId := ls.filterMap Incident.fired?

/-- The watches that the owners of transports keep. -/
def watches (ts : List Transport) : List WatchId :=
  ts.flatMap fun t => t.owners.toList.filterMap Owner.watch

/-- Whether an owner keeps a watch. -/
def Owner.keeps (w : WatchId) (o : Owner) : Bool := o.watch == some w

variable {w : WatchId}

@[simp] theorem watched_append (es es' : List Exchange) :
    watched (es ++ es') = watched es ++ watched es' :=
  List.filterMap_append

@[simp] theorem unwatched_append (es es' : List Exchange) :
    unwatched (es ++ es') = unwatched es ++ unwatched es' :=
  List.filterMap_append

theorem watched_cons (e : Exchange) (es : List Exchange) :
    watched (e :: es) = e.watched?.toList ++ watched es := by
  rw [watched, List.filterMap_cons, watched]
  cases e.watched? <;> rfl

theorem unwatched_cons (e : Exchange) (es : List Exchange) :
    unwatched (e :: es) = e.call.unwatched?.toList ++ unwatched es := by
  rw [unwatched, List.filterMap_cons, unwatched]
  cases e.call.unwatched? <;> rfl

/-- No watch is set up unless a token is given out. -/
theorem watched_untold {es : List Exchange} (h : Untold es) : watched es = [] := by
  refine List.filterMap_eq_nil_iff.mpr fun e he => ?_
  obtain ⟨call, answer⟩ := e
  have hnone := h _ he
  cases call with
  | watch _ _ => cases hnone
  | _ => rfl

theorem watched_starting {es : List Exchange}
    (h : ∀ e ∈ es, e.call.isStarting = true) : watched es = [] := by
  refine List.filterMap_eq_nil_iff.mpr fun e he => ?_
  obtain ⟨call, answer⟩ := e
  have hstarting := h _ he
  cases call with
  | watch _ _ => cases hstarting
  | _ => rfl

theorem unwatched_starting {es : List Exchange}
    (h : ∀ e ∈ es, e.call.isStarting = true) :
    unwatched es = [] := by
  refine List.filterMap_eq_nil_iff.mpr fun e he => ?_
  have hstarting := h _ he
  revert hstarting
  cases e.call <;> simp [Call.isStarting, Call.unwatched?]

/-- What is only told or asked removes no watch. -/
theorem unwatched_plain {es : List Exchange} (h : ∀ e ∈ es, e.call.isPlain = true) :
    unwatched es = [] := by
  refine List.filterMap_eq_nil_iff.mpr fun e he => ?_
  have hplain := h _ he
  revert hplain
  cases e.call <;> simp [Call.isPlain, Call.isQuery, Call.unwatched?]

/-- Who leaves leaves by its watch, if it is watched. -/
theorem fired_departed (o : Owner) : fired [.departed o] = o.watch.toList := by
  show [Incident.departed o].filterMap Incident.fired? = _
  cases hw : o.watch <;> simp [Incident.fired?, hw]

/-! ### Every move adds up -/

namespace Transport

variable {t t' : Transport} {ls : List Incident} {es : List Exchange} {i : Nat}
  {o : Owner}

/-- The end of an owner removes the watch that it keeps, and no other one. -/
theorem unwatched_parting (ho : t.owners.toList[i]? = some o)
    (h : es.map Exchange.call = t.partingCalls i) :
    unwatched es = o.watch.toList := by
  have hlock : ∀ c : Call, c.isUnlock = true → c.unwatched? = none := by
    intro c hc
    cases c with
    | unwatch _ => cases hc
    | _ => rfl
  have habort : ∀ request,
      (t.backend.abortCall t.device request).unwatched? = none := by
    intro request
    cases t.backend <;> rfl
  show es.filterMap (fun e => e.call.unwatched?) = _
  rw [filterMap_parting ho h hlock,
    List.filterMap_eq_nil_iff.mpr fun request _ => habort request]
  simp [Call.unwatched?]

/-- Who keeps a watch afterwards kept it before or set it up, unless it was removed
or has fired. -/
theorem Move.watches_eq (move : Move t ls es t') :
    t'.tally (Owner.keeps w) + (unwatched es).count w + (fired ls).count w =
      t.tally (Owner.keeps w) + (watched es).count w := by
  have hcalm : Calm ls → watched es = [] :=
    fun calm => watched_untold (move.keeps calm).untold
  cases move with
  | @joined _ _ name access call id watch es start admitted spec _ =>
    have hset :
        (watched (⟨.watch name (t.token id), watch⟩ :: es)).count w =
          (watch == some w).toNat := by
      rw [watched_cons, watched_starting spec.isStarting, List.append_nil]
      exact count_toList w watch
    have hremoved : unwatched (⟨.watch name (t.token id), watch⟩ :: es) = [] := by
      rw [unwatched_cons, unwatched_starting spec.isStarting]
      rfl
    rw [hset, hremoved, tally_started (room_of_admission admitted)]
    rfl
  | @turnedAway _ _ name access call id watch es es' start admitted spec _ parting =>
    -- the watch that was set up is removed again, and nobody has it
    have hroom := room_of_admission admitted
    have hlast :
        (t.started start
          (.fresh id name access watch call start.request)).owners.toList[
        t.owners.size]? = some _ := started_last hroom
    have hgone := tally_without (p := Owner.keeps w) hlast
    rw [tally_started hroom] at hgone
    have hset : (watched (⟨.watch name (t.token id), watch⟩ :: (es ++ es'))).count w =
        (watch == some w).toNat := by
      rw [watched_cons, watched_append, watched_starting spec.isStarting,
        watched_untold (untold_of_calls parting (partingCalls_untold _ _)),
        List.append_nil, List.append_nil]
      exact count_toList w watch
    have hremoved :
        (unwatched (⟨.watch name (t.token id), watch⟩ :: (es ++ es'))).count w =
        (watch == some w).toNat := by
      rw [unwatched_cons, unwatched_append, unwatched_starting spec.isStarting,
        unwatched_parting hlast parting]
      exact count_toList w watch
    rw [hset, hremoved]
    show _ + _ + 0 = _
    omega
  | narrowed ho _ _ => exact tally_modifyOwner_kept (Owner.narrow · _) ho rfl
  | ended ho parting =>
    rw [hcalm calm_nil, unwatched_parting ho parting, count_toList, tally_without ho]
    rfl
  | @departed i o ho =>
    rw [fired_departed, count_toList]
    exact tally_modifyOwner_released Owner.depart ho rfl
  | settled ho => exact tally_modifyOwner_kept Owner.settle ho rfl
  | installed install =>
    rw [hcalm calm_nil, unwatched_plain (install_plain install),
      (install_announced install).tally_eq]
    rfl
  | delivered ho reply =>
    rw [hcalm calm_nil, unwatched_plain (delivered_plain reply),
      tally_modifyOwner_kept Owner.answer ho rfl]
    rfl
  | scheduled ho _ => exact tally_modifyOwner_kept Owner.schedule ho rfl
  | delayed report =>
    rw [hcalm calm_nil, unwatched_plain (reportDelay_plain report),
      (reportDelay_announced report).tally_eq]
    rfl
  | @asked e query =>
    rw [hcalm calm_nil,
      unwatched_plain fun e' he' =>
        List.mem_singleton.mp he' ▸ Call.isPlain_of_isQuery query]
    rfl

end Transport

/-! ### Every run adds up -/

namespace WatchId

/-- The owners that keep a watch, as it is set up, removed, and fires. -/
def account (w : WatchId) : Account where
  held t := t.tally (Owner.keeps w)
  said e := (e.watched? == some w).toNat - (e.call.unwatched? == some w).toNat
  befell l := -(l.fired? == some w).toNat - (watches (displaced [l])).count w

/-- The watches that are kept, counted one transport after the other. -/
theorem count_watches (w : WatchId) (ts : List Transport) :
    (watches ts).count w = (ts.map (Transport.tally (Owner.keeps w))).sum := by
  induction ts with
  | nil => rfl
  | cons t ts ih =>
    rw [List.map_cons, List.sum_cons, ← ih, watches, List.flatMap_cons,
      List.count_append, List.count_filterMap]
    rfl

theorem saids_eq (w : WatchId) (es : List Exchange) :
    w.account.saids es = (watched es).count w - (unwatched es).count w := by
  rw [watched, unwatched, List.count_filterMap, List.count_filterMap]
  exact Account.saids_eq_countP_sub (fun _ => rfl) es

theorem befalls_eq (w : WatchId) (ls : List Incident) :
    w.account.befalls ls = -((fired ls).count w : Int) -
      (watches (displaced ls)).count w := by
  induction ls with
  | nil => rfl
  | cons l ls ih =>
    have hfired : fired (l :: ls) = l.fired?.toList ++ fired ls := by
      rw [fired, List.filterMap_cons, fired]
      cases l.fired? <;> rfl
    have hdisplaced : displaced (l :: ls) = displaced [l] ++ displaced ls :=
      displaced_append [l] ls
    rw [Account.befalls_cons, ih, hfired, hdisplaced, List.count_append, count_toList,
      watches, watches, List.flatMap_append, List.count_append]
    show (-_ - _ : Int) + _ = _
    rw [watches]
    omega

/-- The account of one watch is balanced in all transports. -/
theorem account_balanced (w : WatchId) : w.account.Balanced fun _ => True where
  query e h := by
    obtain ⟨call, answer⟩ := e
    cases call <;> first | rfl | cases h
  answered _ _ _ := rfl
  displaced t := by
    show -(0 : Int) - ((watches [t]).count w : Nat) = -(t.tally (Owner.keeps w) : Nat)
    rw [count_watches]
    simp
  refused _ := rfl
  opened _ _ _ _ _ t created := by
    refine ⟨trivial, ?_⟩
    show ((t.tally (Owner.keeps w) : Nat) : Int) = 0
    rw [Transport.tally_vacant (Transport.owners_of_create created)]
    rfl
  closed t es _ hvacant closing := by
    have hclosing : w.account.saids es = 0 := by
      refine Account.saids_eq_zero fun e he => ?_
      have hcall := List.mem_map_of_mem (f := Exchange.call) he
      rw [closing] at hcall
      obtain ⟨session, -, hcall⟩ := List.mem_map.mp hcall
      obtain ⟨call, answer⟩ := e
      cases hcall
      rfl
    show ((t.tally (Owner.keeps w) : Nat) : Int) + 0 + _ = 0
    rw [Transport.tally_vacant hvacant, hclosing]
    rfl
  move _ _ _ _ _ _ := trivial
  moved t ls es t' _ move := by
    have hwatches := move.watches_eq (w := w)
    have hdisplaced : displaced ls = [] := by cases move <;> rfl
    rw [saids_eq, befalls_eq, hdisplaced]
    show ((t'.tally (Owner.keeps w) : Nat) : Int) =
      (t.tally (Owner.keeps w) : Nat) + _ + _
    rw [watches, List.flatMap_nil, List.count_nil]
    omega

theorem total_eq (w : WatchId) (r : Registry) :
    w.account.total r = (watches r.toList).count w := by
  rw [Account.total, count_watches]
  induction r.toList with
  | nil => rfl
  | cons t ts ih =>
    rw [List.map_cons, List.sum_cons, ih, List.map_cons, List.sum_cons]
    show ((t.tally (Owner.keeps w) : Nat) : Int) + _ = _
    omega

end WatchId

/-- Nobody is watched in a step that admits nobody. -/
theorem Step.watches_nobody {s : Step} (calm : Calm s.incidents) :
    ∀ e ∈ s.exchanges, ∀ name token, e.call ≠ .watch name token := by
  intro e he name token hwatch
  have hnone := (s.outcome.keeps calm).untold e he
  rw [hwatch] at hnone
  cases hnone

/-- In every run the watches that were set up are those that live owners keep, those
that were removed and those that fired when the client of their owner left; only a
transport whose number was given out again, once the counter had started over, would
take a watch with it. So nothing is removed that was not set up. A step in which
nobody is admitted, such as a request for access that is turned down, sets up no
watch. And where no two watches have one number, a watch is in one of these states:
it is kept by one live owner, and neither removed nor fired; or it was removed,
once; or it has fired. -/
theorem Run.watches_balance {options : Options} {steps : List Step} {b : Broker}
    (run : Run (.empty options) steps b) :
    (watched (exchanges steps)).Perm
        (watches b.transports.toList ++ unwatched (exchanges steps) ++
        fired (incidents steps) ++ watches (displaced (incidents steps))) ∧
      (Unwrapped steps → displaced (incidents steps) = []) ∧
      (∀ w ∈ unwatched (exchanges steps), w ∈ watched (exchanges steps)) ∧
      (∀ s ∈ steps, (∀ call, .admitted call ∉ s.incidents) →
        ∀ e ∈ s.exchanges, ∀ name token, e.call ≠ .watch name token) ∧
      ((watched (exchanges steps)).Nodup → ∀ w ∈ watched (exchanges steps),
        (watches b.transports.toList).count w +
          (unwatched (exchanges steps)).count w +
          (fired (incidents steps)).count w +
            (watches (displaced (incidents steps))).count w = 1) := by
  -- the account of each watch, summed up over the run
  have hcount : ∀ w,
      (watched (exchanges steps)).count w = (watches b.transports.toList).count w +
      (unwatched (exchanges steps)).count w + (fired (incidents steps)).count w +
        (watches (displaced (incidents steps))).count w := by
    intro w
    have htotal := w.account_balanced.run_total run
    rw [WatchId.total_eq, WatchId.saids_eq, WatchId.befalls_eq] at htotal
    omega
  have hperm : (watched (exchanges steps)).Perm (watches b.transports.toList ++
      unwatched (exchanges steps) ++ fired (incidents steps) ++
        watches (displaced (incidents steps))) := by
    rw [List.perm_iff_count]
    intro w
    rw [hcount, List.count_append, List.count_append, List.count_append]
  refine ⟨hperm, run.displaced_eq_nil, fun w hw => ?_,
    fun s _ calm => Step.watches_nobody calm, fun distinct w hw => ?_⟩
  · exact hperm.mem_iff.mpr (by simp [hw])
  · rw [← hcount, List.count_eq_one_of_mem distinct hw]

/-- Three clients are watched: one gives back what it acquired, one leaves, and one
goes on. -/
def Scene.threeWatched : List (Script × Operation) :=
  [({}, .create speaker device []), ({}, acquire ":1" "r" 1),
    ({ lastWatch := 1 }, acquire ":2" "w" 2),
    ({}, .release "/dev/fd0" ":1" "r"), ({}, .exit ⟨⟨0⟩, ⟨1⟩⟩),
      ({ lastWatch := 2 }, acquire ":3" "rw" 3)]

/-- A session in which a watch is removed, one fires, and one is kept. -/
theorem Run.three_watches_balance :
    ∃ steps b, Run (.empty {}) steps b ∧ watched (exchanges steps) = [⟨1⟩, ⟨2⟩, ⟨3⟩] ∧
      unwatched (exchanges steps) = [⟨1⟩] ∧ fired (incidents steps) = [⟨2⟩] ∧
      (watches b.transports.toList).count ⟨3⟩ = 1 := by
  have run := Broker.run_play Script.peers (.empty {}) Scene.threeWatched
  have hwatched :
      watched (exchanges ((Broker.empty {}).play Script.peers Scene.threeWatched)) =
      [⟨1⟩, ⟨2⟩, ⟨3⟩] := by decide
  have hunwatched :
      unwatched (exchanges ((Broker.empty {}).play Script.peers Scene.threeWatched)) =
      [⟨1⟩] := by decide
  have hfired :
      fired (incidents ((Broker.empty {}).play Script.peers Scene.threeWatched)) =
        [⟨2⟩] := by
    decide
  have hunwrapped :
      Unwrapped ((Broker.empty {}).play Script.peers Scene.threeWatched) := by decide
  obtain ⟨-, hdisplaced, -, -, hdistinct⟩ := run.watches_balance
  have hthird := hdistinct (by rw [hwatched]; decide) ⟨3⟩ (by simp [hwatched])
  rw [hunwatched, hfired, hdisplaced hunwrapped] at hthird
  refine ⟨_, _, run, hwatched, hunwatched, hfired, ?_⟩
  simpa [watches] using hthird

end AudioBroker
