import AudioBroker.Proofs.Numbers

/-!
# Keeping count

Answers that are owed, stream locks that are held and watches that are kept are kept
in the transports, and what is said to the peers adds to them and takes from them.
An account says by how much; if every move of a transport agrees with it, then so
does every run.

- `Account`: what a transport holds, and by how much an exchange or an incident
  changes it.
- `Account.Balanced`: every move agrees with the account, and so do the opening and
  the closing of a transport.
- `Account.Balanced.run_total`: what all live transports hold together is what the
  whole run added up to.
- `Account.total_eq_countP` and the like: the sums of an account that only counts.
- `Account.Kept`: the same for an account in which only answers and stream locks
  count.
-/

namespace AudioBroker

/-- What transports hold, and by how much that is changed by what is said and what
happens. -/
structure Account where
  held : Transport → Int
  /-- What an exchange adds to what is held. -/
  said : Exchange → Int
  /-- What an incident adds to what is held. -/
  befell : Incident → Int

/-- Counting by adding up ones. -/
theorem sum_toNat_eq_countP {α : Type} (p : α → Bool) (xs : List α) :
    (xs.map fun x => ((p x).toNat : Int)).sum = (xs.countP p : Nat) := by
  induction xs with
  | nil => rfl
  | cons x xs ih =>
    rw [List.map_cons, List.sum_cons, ih, List.countP_cons]
    cases p x
    · simp
    · simp only [Bool.toNat_true, if_true]
      omega

namespace Account

variable {a : Account} {t t' : Transport} {r r' : Registry} {es es' : List Exchange}
  {ls ls' : List Incident}

/-- What all live transports hold together. -/
def total (a : Account) (r : Registry) : Int := (r.toList.map a.held).sum

/-- What a list of exchanges adds to what is held. -/
def saids (a : Account) (es : List Exchange) : Int := (es.map a.said).sum

/-- What a list of incidents adds to what is held. -/
def befalls (a : Account) (ls : List Incident) : Int := (ls.map a.befell).sum

@[simp] theorem saids_nil : a.saids [] = 0 := rfl

@[simp] theorem saids_cons (e : Exchange) :
    a.saids (e :: es) = a.said e + a.saids es := rfl

@[simp] theorem saids_append : a.saids (es ++ es') = a.saids es + a.saids es' := by
  simp [saids]

theorem saids_eq_zero (h : ∀ e ∈ es, a.said e = 0) : a.saids es = 0 := by
  induction es with
  | nil => rfl
  | cons e es ih =>
    have hhead := h e List.mem_cons_self
    have hrest := ih fun e he => h e (List.mem_cons_of_mem _ he)
    rw [saids_cons, hhead, hrest]
    rfl

@[simp] theorem befalls_nil : a.befalls [] = 0 := rfl

@[simp] theorem befalls_cons (l : Incident) :
    a.befalls (l :: ls) = a.befell l + a.befalls ls := rfl

@[simp] theorem befalls_append :
    a.befalls (ls ++ ls') = a.befalls ls + a.befalls ls' := by
  simp [befalls]

/-- What is held, where a transport holds one or nothing. -/
theorem total_eq_countP {p : Transport → Bool} (h : ∀ t, a.held t = (p t).toNat)
    (r : Registry) :
    a.total r = r.toList.countP p := by
  rw [total, ← sum_toNat_eq_countP]
  exact congrArg List.sum (List.map_congr_left fun t _ => h t)

/-- What is said, where an exchange takes one or gives one back. -/
theorem saids_eq_countP_sub {p q : Exchange → Bool}
    (h : ∀ e, a.said e = (p e).toNat - (q e).toNat) (es : List Exchange) :
    a.saids es = es.countP p - es.countP q := by
  rw [← sum_toNat_eq_countP, ← sum_toNat_eq_countP]
  induction es with
  | nil => rfl
  | cons e es ih =>
    rw [saids_cons, ih, h, List.map_cons, List.sum_cons, List.map_cons, List.sum_cons]
    omega

/-- What befalls, where only a displaced transport takes with it what it held. -/
theorem befalls_eq_neg_countP {p : Transport → Bool}
    (h : ∀ l, a.befell l = -((displaced [l]).countP p : Nat)) (ls : List Incident) :
    a.befalls ls = -((displaced ls).countP p : Nat) := by
  induction ls with
  | nil => rfl
  | cons l ls ih =>
    have hcons : displaced (l :: ls) = displaced [l] ++ displaced ls :=
      displaced_append [l] ls
    rw [befalls_cons, ih, h, hcons, List.countP_append]
    omega

/-- An account that agrees with what transports with the property `P` do, and `P` is
never lost. -/
structure Balanced (a : Account) (P : Transport → Prop) : Prop where
  query : ∀ e : Exchange, e.call.isQuery = true → a.said e = 0
  answered : ∀ call reply delivery,
    a.said ⟨.reply call reply, delivery⟩ + a.befell (.answered call) = 0
  displaced : ∀ t, a.befell (.displaced t) = -a.held t
  refused : ∀ path, a.said ⟨.register path, false⟩ = 0
  opened : ∀ id endpoint device configuration options t,
    Transport.create id endpoint device configuration options = .ok t →
      P t ∧ a.held t = a.said ⟨.register t.path, true⟩
  /-- What a transport that nobody owns still holds, it gives back when it is
  closed. -/
  closed : ∀ t es, P t → t.owners.toList = [] →
    es.map Exchange.call = t.backend.closeCalls →
    a.held t + a.said ⟨.unregister t.path, ()⟩ + a.saids es = 0
  move : ∀ t ls es t', P t → Transport.Move t ls es t' → P t'
  moved : ∀ t ls es t', P t → Transport.Move t ls es t' →
    a.held t' = a.held t + a.saids es + a.befalls ls

namespace Balanced

variable {P : Transport → Prop}

/-- A course changes what its transport holds by what is said and what befalls. -/
theorem course_held (h : a.Balanced P) (ht : P t) (course : t.Course ls es t') :
    a.held t' = a.held t + a.saids es + a.befalls ls := by
  induction course with
  | nil => simp
  | cons move _ _ ih =>
    have hhead := h.moved _ _ _ _ ht move
    have hrest := ih (h.move _ _ _ _ ht move)
    rw [saids_append, befalls_append]
    omega

/-- An effect adds up: only the transport that is concerned changes what it holds. -/
theorem effect_total (h : a.Balanced P) (effect : r.Effect ls es r')
    (hr : r.Distinct) (hP : ∀ t ∈ r.toList, P t) :
    a.total r' = a.total r + a.saids es + a.befalls ls := by
  induction effect with
  | still => simp
  | asked queries =>
    rw [saids_eq_zero fun e he => h.query e (queries e he)]
    simp
  | answered call reply delivery =>
    have hzero := h.answered call reply delivery
    simp only [saids_cons, saids_nil, befalls_cons, befalls_nil]
    omega
  | moved live course =>
    -- the other transports hold what they held
    obtain ⟨pre, post, hl, -, -, hreplace⟩ := hr.exists_around live
    have hheld := h.course_held (hP _ (Registry.get?_eq_some live).1) course
    rw [total, total, hl, hreplace _ course.id_eq]
    simp only [List.map_append, List.map_cons, List.sum_append, List.sum_cons]
    omega
  | @closed r t t' es es' live course hvacant closing =>
    obtain ⟨pre, post, hl, herase, -, -⟩ := hr.exists_around live
    have hPt := hP _ (Registry.get?_eq_some live).1
    have hheld := h.course_held hPt course
    -- what it held is given back by its owners and by the closing
    have hgone := h.closed t' es' (course.invariant h.move hPt) hvacant closing
    rw [Transport.path_eq_of_terms course.terms_eq] at hgone
    rw [total, total, hl, herase]
    simp only [List.map_append, List.map_cons, List.sum_append, List.sum_cons,
      saids_cons, saids_append, befalls_nil] at hheld ⊢
    omega
  | seq first _ _ ih₁ ih₂ =>
    have hfirst := ih₁ hr hP
    have hnext := ih₂ (first.distinct hr) (first.forall_transports h.move hP)
    rw [saids_append, befalls_append]
    omega

/-- The same for an operation: a new transport brings what its publication counts
for, and one that is displaced takes with it what it held. -/
theorem outcome_total (h : a.Balanced P) (outcome : r.Outcome ls es r')
    (hr : r.Distinct) (hP : ∀ t ∈ r.toList, P t) :
    a.total r' = a.total r + a.saids es + a.befalls ls := by
  cases outcome with
  | effect effect => exact h.effect_total effect hr hP
  | refused path => simp [h.refused path]
  | @opened _ _ _ _ _ _ t created insert =>
    obtain ⟨-, hheld⟩ := h.opened _ _ _ _ _ _ created
    obtain rfl := (Transport.create_eq_ok created).1
    unfold Registry.insert? at insert
    cases hget : r.get? t.id with
    | none =>
      rw [hget] at insert
      obtain ⟨-, hpush⟩ := BoundedList.push?_eq_some_iff.mp insert
      rw [total, hpush]
      simp [hheld, total]
    | some u =>
      -- what the displaced transport held is lost
      obtain ⟨-, huid⟩ := Registry.get?_eq_some hget
      rw [hget] at insert
      cases insert
      obtain ⟨pre, post, hl, -, -, hreplace⟩ := hr.exists_around (by rw [huid, hget])
      have hgone := h.displaced u
      rw [total, total, hl, hreplace t huid.symm]
      simp only [List.map_append, List.map_cons, List.sum_append, List.sum_cons,
        Option.toList_some, List.map_nil, saids_cons, saids_nil, befalls_cons,
        befalls_nil]
      omega

/-- What the live transports hold is what the whole run added up to. -/
theorem run_total {options : Options} {steps : List Step} {b : Broker}
    (h : a.Balanced P) (run : Run (.empty options) steps b) :
    a.total b.transports = a.saids (exchanges steps) +
      a.befalls (incidents steps) := by
  induction run with
  | nil => rfl
  | @snoc steps s run ih =>
    -- the steps before this one have kept the numbers apart and `P` true
    have hcreate := fun id endpoint device configuration options t created =>
      (h.opened id endpoint device configuration options t created).1
    have hstep := h.outcome_total s.outcome run.distinct
      (run.forall_transports hcreate h.move)
    simp only [exchanges_append, exchanges_singleton, incidents_append,
      incidents_singleton, saids_append, befalls_append]
    omega

end Balanced

/-- An account in which only answers and stream locks count, so that a transport
that nobody owns holds nothing. -/
structure Kept (a : Account) (P : Transport → Prop) : Prop where
  neutral : ∀ e : Exchange, e.call.isNeutral = true → a.said e = 0
  answered : ∀ call reply delivery,
    a.said ⟨.reply call reply, delivery⟩ + a.befell (.answered call) = 0
  displaced : ∀ t, a.befell (.displaced t) = -a.held t
  /-- A transport that nobody owns holds nothing. -/
  vacant : ∀ t, P t → t.owners.toList = [] → a.held t = 0
  create : ∀ id endpoint device configuration options t,
    Transport.create id endpoint device configuration options = .ok t → P t
  move : ∀ t ls es t', P t → Transport.Move t ls es t' → P t'
  moved : ∀ t ls es t', P t → Transport.Move t ls es t' →
    a.held t' = a.held t + a.saids es + a.befalls ls

namespace Kept

variable {P : Transport → Prop}

/-- An account in which only answers and locks count is balanced: opening and
closing a transport do not matter to it. -/
theorem balanced (h : a.Kept P) : a.Balanced P where
  query e hquery := h.neutral e (Call.isNeutral_of_isQuery hquery)
  answered := h.answered
  displaced := h.displaced
  refused path := h.neutral ⟨.register path, false⟩ rfl
  opened id endpoint device configuration options t created := by
    have hP := h.create _ _ _ _ _ _ created
    rw [h.vacant t hP (Transport.owners_of_create created),
      h.neutral ⟨.register t.path, true⟩ rfl]
    exact ⟨hP, rfl⟩
  closed t es hP hvacant closing := by
    -- a transport that is closed has no owners left, and what it kept counted for
    -- nothing
    have hclosing : a.saids es = 0 :=
      saids_eq_zero fun e he => h.neutral e
        (Transport.neutral_of_closing closing e he)
    rw [h.vacant t hP hvacant, h.neutral ⟨.unregister t.path, ()⟩ rfl, hclosing]
    rfl
  move := h.move
  moved := h.moved

theorem outcome_total (h : a.Kept P) (outcome : r.Outcome ls es r') (hr : r.Distinct)
    (hP : ∀ t ∈ r.toList, P t) : a.total r' = a.total r + a.saids es + a.befalls ls :=
  h.balanced.outcome_total outcome hr hP

theorem run_total {options : Options} {steps : List Step} {b : Broker} (h : a.Kept P)
    (run : Run (.empty options) steps b) :
    a.total b.transports = a.saids (exchanges steps) + a.befalls (incidents steps) :=
  h.balanced.run_total run

end Kept

end Account

end AudioBroker
