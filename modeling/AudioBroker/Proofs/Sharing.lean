import AudioBroker.Proofs.Broker.Effect

/-!
# How owners share a transport

The directions that are taken are kept twice: as the locks of the transport, and as
what each of its owners holds. The two agree in every state that the broker can come
to.

- `Access.has`: whether one direction belongs to a set of them.
- `Transport.Shared`: each direction that is taken is held by one owner, every owner
  holds something, and no client owns a transport twice. It counts the owners of a
  direction, so that one more owner, one less, or one with less is a matter of
  adding up.
- `Transport.Move.shared`: every move keeps it.
- `Run.owners_partition_locks`: what it comes to for the live transports of every
  run.
-/

namespace AudioBroker

/-! ### One direction -/

/-- One of the two directions. -/
inductive Direction where
  | reading
  | writing
  deriving DecidableEq

namespace Access

variable {a b : Access} {d : Direction}

/-- Whether a direction is in a set. -/
def has (a : Access) : Direction → Bool
  | .reading => a.read
  | .writing => a.write

@[simp] theorem has_empty : (∅ : Access).has d = false := by cases d <;> rfl

@[simp] theorem has_union : (a ∪ b).has d = (a.has d || b.has d) := by cases d <;> rfl

@[simp] theorem has_inter : (a ∩ b).has d = (a.has d && b.has d) := by cases d <;> rfl

@[simp] theorem has_sdiff : (a \ b).has d = (a.has d && !b.has d) :=
  by cases d <;> rfl

theorem ext_has (h : ∀ d, a.has d = b.has d) : a = b :=
  Access.ext (h .reading) (h .writing)

theorem has_of_subset (h : a ⊆ b) (ha : a.has d = true) : b.has d = true := by
  obtain ⟨hread, hwrite⟩ := subset_iff.mp h
  cases d with
  | reading => exact hread ha
  | writing => exact hwrite ha

theorem exists_has (h : a ≠ ∅) : ∃ d, a.has d = true := by
  by_contra hnone
  apply h
  apply ext_has
  intro d
  simpa using fun hd => hnone ⟨d, hd⟩

/-- Sets without a common direction are disjoint. -/
theorem inter_eq_empty (h : ∀ d, ¬ (a.has d = true ∧ b.has d = true)) :
    a ∩ b = ∅ := by
  apply ext_has
  intro d
  have hd := h d
  cases ha : a.has d <;> cases hb : b.has d <;> simp_all

end Access

/-- All directions of a list of sets. -/
def Access.unions (as : List Access) : Access := as.foldr (· ∪ ·) ∅

/-- A direction is in the union if it is in one of the sets. -/
theorem Access.has_unions (as : List Access) (d : Direction) :
    (unions as).has d = as.any (·.has d) := by
  induction as with
  | nil => exact has_empty
  | cons a as ih =>
    rw [List.any_cons, ← ih]
    exact has_union

namespace Transport

variable {t t' : Transport} {i : Nat} {o : Owner}

/-- What the owners of a transport hold, with their clients' names. -/
def claims (t : Transport) : List (ClientName × Access) :=
  t.owners.toList.map fun o => (o.name, o.access)

/-- The owners and the locks of a transport agree. -/
structure Shared (t : Transport) : Prop where
  /-- Every owner holds something. -/
  some_access : ∀ c ∈ t.claims, c.2 ≠ ∅
  /-- A direction that is taken has one owner, and one that is free has none. -/
  count : ∀ d, t.claims.countP (·.2.has d) = (t.locks.has d).toNat
  names : (t.claims.map Prod.fst).Nodup

/-! ### The claims after a move -/

/-- Counting one direction where an owner of it gives something back. -/
theorem count_given {m n : Nat} {held locked given : Bool}
    (h : m + (n + held.toNat) = locked.toNat)
    (hgiven : given = true → held = true) :
    m + (n + (held && !given).toNat) = (locked && !given).toNat := by
  cases held <;> cases locked <;> cases given <;> simp at h hgiven ⊢ <;> omega

/-- The claim of an owner, with those before and after it: it goes when the owner
ends, and it is less when the owner gives something back. -/
theorem claims_around (ho : t.owners.toList[i]? = some o) :
    ∃ pre post, t.claims = pre ++ (o.name, o.access) :: post ∧
      (t.without i).claims = pre ++ post ∧
      ∀ a, (t.narrow i a).claims = pre ++ (o.name, o.access \ a) :: post := by
  obtain ⟨pre, post, hl, -, herase, hmodify⟩ := BoundedList.exists_around ho
  refine ⟨pre.map fun o => (o.name, o.access), post.map fun o => (o.name, o.access),
    ?_, ?_, fun a => ?_⟩
  · rw [claims, hl, List.map_append, List.map_cons]
  · rw [claims, toList_owners_without, herase, List.map_append]
  · show ((t.owners.toList.modify i _).map _) = _
    rw [hmodify, List.map_append, List.map_cons]
    rfl

theorem claims_modifyOwner {f : Owner → Owner}
    (h : ∀ o, ((f o).name, (f o).access) = (o.name, o.access)) :
    (t.modifyOwner i f).claims = t.claims :=
  BoundedList.map_modify_eq h t.owners.toList i

/-- It only matters what is claimed, and what is taken. -/
theorem Shared.of_claims (h : t.Shared) (hclaims : t'.claims = t.claims)
    (hlocks : t'.locks = t.locks) :
    t'.Shared where
  some_access := hclaims ▸ h.some_access
  count := by rw [hclaims, hlocks]; exact h.count
  names := hclaims ▸ h.names

theorem Shared.announced {es : List Exchange} (h : t.Shared)
    (announced : t.Announced es t') :
    t'.Shared := by
  rw [announced.eq]
  exact h.of_claims rfl rfl

theorem shared_of_vacant (howners : t.owners.toList = []) (hlocks : t.locks = ∅) :
    t.Shared := by
  have hclaims : t.claims = [] := by rw [claims, howners, List.map_nil]
  constructor
  · simp [hclaims]
  · simp [hclaims, hlocks]
  · simp [hclaims]

/-- The end of an owner frees what it held, and nothing else. -/
theorem Shared.without (h : t.Shared) (ho : t.owners.toList[i]? = some o) :
    (t.without i).Shared := by
  -- the claims are those around the owner: none is new, and each direction that it
  -- held is free
  obtain ⟨pre, post, hclaims, hwithout, -⟩ := claims_around ho
  have hcount := h.count
  have hnames := h.names
  have hsome := h.some_access
  rw [hclaims] at hcount hnames hsome
  constructor
  · rw [hwithout]
    exact fun c hc => hsome c (BoundedList.mem_around.mpr (.inr hc))
  · intro d
    have hd := hcount d
    have hlocks : (t.without i).locks = t.locks \ o.access := by rw [without_eq ho]
    rw [BoundedList.countP_around] at hd
    have hgiven := count_given hd fun h => h
    rw [hwithout, hlocks, Access.has_sdiff, List.countP_append]
    rwa [Bool.and_not_self] at hgiven
  · rw [hwithout]
    rw [List.map_append, List.map_cons] at hnames
    rw [List.map_append]
    exact hnames.sublist (List.Sublist.append_left (List.sublist_cons_self _ _) _)

/-- Giving back a part frees that part; something is left, as the owner would have
ended otherwise. -/
theorem Shared.narrow {a : Access} (h : t.Shared) (ho : t.owners.toList[i]? = some o)
    (hless : a ≠ o.access) (hpart : a ⊆ o.access) : (t.narrow i a).Shared := by
  obtain ⟨pre, post, hclaims, -, hnarrow⟩ := claims_around ho
  have hcount := h.count
  have hnames := h.names
  have hsome := h.some_access
  rw [hclaims] at hcount hnames hsome
  constructor
  · rw [hnarrow]
    intro c hc
    rcases BoundedList.mem_around.mp hc with rfl | hc
    · exact Access.sdiff_ne_empty hpart hless
    · exact hsome c (BoundedList.mem_around.mpr (.inr hc))
  · intro d
    have hd := hcount d
    rw [BoundedList.countP_around] at hd
    show (t.narrow i a).claims.countP _ = ((t.locks \ a).has d).toNat
    rw [hnarrow, BoundedList.countP_around, Access.has_sdiff, Access.has_sdiff]
    exact count_given hd (Access.has_of_subset hpart)
  · rw [hnarrow]
    simpa using hnames

/-! ### Every move -/

/-- A new owner takes directions that were free, for a client that owned nothing. -/
theorem Shared.started {start : Backend.Start} (h : t.Shared)
    (room : t.owners.toList.length < maxOwners) (hsome : o.access ≠ ∅)
    (hfree : o.access ∩ t.locks = ∅) (hname : ∀ c ∈ t.claims, c.1 ≠ o.name) :
    (t.started start o).Shared := by
  have hclaims : (t.started start o).claims = t.claims ++ [(o.name, o.access)] := by
    rw [started_eq room, claims, claims, List.map_append, List.map_singleton]
  have hlocks : (t.started start o).locks = t.locks ∪ o.access := by
    rw [started_eq room]
  constructor
  · rw [hclaims]
    intro c hc
    rcases List.mem_append.mp hc with hc | hc
    · exact h.some_access c hc
    · rw [List.mem_singleton.mp hc]
      exact hsome
  · intro d
    have hd := h.count d
    -- what is asked for is free
    have hnot : (o.access.has d && t.locks.has d) = false := by
      rw [← Access.has_inter, hfree, Access.has_empty]
    rw [hclaims, hlocks, BoundedList.countP_around, hd, List.countP_nil,
      Access.has_union]
    cases ha : o.access.has d <;> cases hl : t.locks.has d <;> simp_all
  · rw [hclaims, List.map_append, List.nodup_append]
    refine ⟨h.names, by simp, ?_⟩
    intro n hn n' hn'
    obtain ⟨c, hc, rfl⟩ := List.mem_map.mp hn
    rw [List.map_singleton, List.mem_singleton] at hn'
    rw [hn']
    exact hname c hc

/-- A client that was admitted owns nothing yet. -/
theorem claims_ne_of_admitted {client : String} {name : ClientName}
    (h : t.ownerOf? client = none) (hname : name.str = client) :
    ∀ c ∈ t.claims, c.1 ≠ name := by
  intro c hc hcn
  obtain ⟨o, ho, rfl⟩ := List.mem_map.mp hc
  have hne := locate?_eq_none_iff.mp h o ho
  rw [show o.name = name from hcn, hname] at hne
  simp at hne

/-- Every move keeps the owners and the locks of a transport in agreement. -/
theorem Move.shared {ls : List Incident} {es : List Exchange} (h : t.Shared)
    (move : Move t ls es t') :
    t'.Shared := by
  cases move with
  | joined admitted _ _ =>
    obtain ⟨hfree, hparse, hlocks, hname, room⟩ := admission_eq_ok admitted
    exact h.started room (Access.parse?_eq_some_iff.mp hparse).1 hlocks
      (claims_ne_of_admitted hfree hname)
  | turnedAway admitted _ _ _ =>
    -- what the owner took it has given back
    obtain ⟨-, -, hlocks, -, room⟩ := admission_eq_ok admitted
    rw [started_without room hlocks]
    exact h.of_claims rfl rfl
  | narrowed ho hless hpart => exact h.narrow ho hless hpart
  | ended ho _ => exact h.without ho
  | departed _ => exact h.of_claims (claims_modifyOwner fun _ => rfl) rfl
  | settled _ => exact h.of_claims (claims_modifyOwner fun _ => rfl) rfl
  | installed install => exact h.announced (install_announced install)
  | delivered _ _ => exact h.of_claims (claims_modifyOwner fun _ => rfl) rfl
  | scheduled _ _ => exact h.of_claims (claims_modifyOwner fun _ => rfl) rfl
  | delayed report => exact h.announced (reportDelay_announced report)
  | asked _ => exact h

/-! ### What it comes to -/

theorem Shared.access_ne (h : t.Shared) : ∀ o ∈ t.owners.toList, o.access ≠ ∅ := by
  intro o ho
  exact h.some_access (o.name, o.access) (List.mem_map_of_mem ho)

/-- No client owns a transport twice. -/
theorem Shared.names_nodup (h : t.Shared) :
    (t.owners.toList.map Owner.name).Nodup := by
  have hclaims := h.names
  rwa [claims, List.map_map] at hclaims

/-- No other owner has the client of this one. -/
theorem Shared.name_ne {pre post : List Owner} {u : Owner} (h : t.Shared)
    (howners : t.owners.toList = pre ++ o :: post) (hu : u ∈ pre ++ post) :
    u.name ≠ o.name := by
  have hnames := h.names_nodup
  rw [howners, List.map_append, List.map_cons, List.nodup_middle, List.nodup_cons,
    ← List.map_append] at hnames
  exact fun hname => hnames.1 (hname ▸ List.mem_map_of_mem hu)

/-- The owner of a client is found where it is. -/
theorem Shared.ownerOf?_eq {client : String} {pre post : List Owner} (h : t.Shared)
    (howners : t.owners.toList = pre ++ o :: post) (hname : o.name.str = client) :
    t.ownerOf? client = some (pre.length, o) := by
  refine locate?_eq_some_iff.mpr
    ⟨pre, post, howners, rfl, beq_iff_eq.mpr hname, fun u hu => ?_⟩
  have hne := h.name_ne howners (List.mem_append_left post hu)
  rw [← hname, beq_eq_false_iff_ne]
  exact fun hstr => hne (Text.ext hstr)

/-- A direction has one owner if it is taken, and none if it is free. -/
theorem Shared.countP_owners (h : t.Shared) (d : Direction) :
    t.owners.toList.countP (·.access.has d) = (t.locks.has d).toNat := by
  rw [← h.count d, claims, List.countP_map]
  rfl

/-- Of what is counted once at most, no two items of a list are. -/
theorem pairwise_of_countP_le_one {α : Type} {p : α → Bool} {xs : List α}
    (h : xs.countP p ≤ 1) :
    xs.Pairwise fun a b => ¬ (p a = true ∧ p b = true) := by
  induction xs with
  | nil => exact .nil
  | cons x xs ih =>
    rw [List.countP_cons] at h
    refine .cons (fun b hb hxb => ?_) (ih (by omega))
    have hpos : 0 < xs.countP p := List.countP_pos_iff.mpr ⟨b, hb, hxb.2⟩
    rw [if_pos hxb.1] at h
    omega

theorem Shared.disjoint (h : t.Shared) :
    t.owners.toList.Pairwise fun o o' => o.access ∩ o'.access = ∅ := by
  have hone : ∀ d, t.owners.toList.countP (·.access.has d) ≤ 1 := by
    intro d
    rw [h.countP_owners d]
    exact Bool.toNat_le _
  have hboth := (pairwise_of_countP_le_one (hone .reading)).and
    (pairwise_of_countP_le_one (hone .writing))
  refine hboth.imp ?_
  intro o o' hdirs
  apply Access.inter_eq_empty
  intro d
  cases d with
  | reading => exact hdirs.1
  | writing => exact hdirs.2

/-- What is taken is what the owners hold together. -/
theorem Shared.locks_eq (h : t.Shared) :
    t.locks = Access.unions (t.owners.toList.map Owner.access) := by
  apply Access.ext_has
  intro d
  have hcount := h.countP_owners d
  rw [Access.has_unions, List.any_map]
  cases hl : t.locks.has d with
  | false =>
    rw [hl, Bool.toNat_false, List.countP_eq_zero] at hcount
    exact (List.any_eq_false.mpr hcount).symm
  | true =>
    rw [hl, Bool.toNat_true] at hcount
    have hpos : 0 < t.owners.toList.countP (·.access.has d) := by omega
    obtain ⟨o, ho, hd⟩ := List.countP_pos_iff.mp hpos
    exact (List.any_eq_true.mpr ⟨o, ho, hd⟩).symm

/-- Every owner holds one of two directions, and each of them has one owner at
most. -/
theorem Shared.length_le_two (h : t.Shared) : t.owners.toList.length ≤ 2 := by
  -- each owner is counted under a direction at least
  have hle : ∀ xs : List Owner, (∀ o ∈ xs, o.access ≠ ∅) →
      xs.length ≤ xs.countP (·.access.has .reading) +
        xs.countP (·.access.has .writing) := by
    intro xs
    induction xs with
    | nil => simp
    | cons o xs ih =>
      intro hsome
      have hrest := ih fun o ho => hsome o (List.mem_cons_of_mem _ ho)
      obtain ⟨d, hd⟩ := Access.exists_has (hsome o (List.mem_cons_self ..))
      rw [List.countP_cons, List.countP_cons, List.length_cons]
      cases d <;> rw [if_pos hd] <;> omega
  have hlen := hle _ h.access_ne
  have hread := Bool.toNat_le (t.locks.has .reading)
  have hwrite := Bool.toNat_le (t.locks.has .writing)
  rw [h.countP_owners, h.countP_owners] at hlen
  omega

end Transport

theorem Run.shared {options : Options} {steps : List Step} {b : Broker}
    (run : Run (.empty options) steps b) : ∀ t ∈ b.transports.toList, t.Shared := by
  apply run.forall_transports (P := Transport.Shared)
  · intro id endpoint device configuration options t hcreate
    obtain ⟨-, -, -, -, -, -, -, -, hlocks, -, -⟩ := Transport.create_eq_ok hcreate
    exact Transport.shared_of_vacant (Transport.owners_of_create hcreate) hlocks
  · intro t ls es t' h move
    exact move.shared h

/-- There is always room for one more owner, as there are only two directions to be
held. -/
theorem Run.room {options : Options} {steps : List Step} {b : Broker}
    (run : Run (.empty options) steps b) :
    ∀ t ∈ b.transports.toList, t.owners.toList.length < maxOwners := fun t ht =>
  Nat.lt_of_le_of_lt (run.shared t ht).length_le_two (by decide)

/-- In every state of every run, the owners of a live transport share its
directions: each holds some, no two hold the same, and together they hold exactly
what is taken. No client owns it twice, and it has two owners at most. -/
theorem Run.owners_partition_locks {options : Options} {steps : List Step}
    {b : Broker} (run : Run (.empty options) steps b) :
    ∀ t ∈ b.transports.toList,
      (∀ o ∈ t.owners.toList, o.access ≠ ∅) ∧
        t.owners.toList.Pairwise (fun o o' => o.access ∩ o'.access = ∅) ∧
        t.locks = Access.unions (t.owners.toList.map Owner.access) ∧
        (t.owners.toList.map Owner.name).Nodup ∧ t.owners.toList.length ≤ 2 := by
  intro t ht
  have h := run.shared t ht
  exact ⟨h.access_ne, h.disjoint, h.locks_eq, h.names_nodup, h.length_le_two⟩

/-- One client reads and another one writes. -/
def Scene.readerAndWriter : List (Script × Operation) :=
  [({}, .create speaker device []), ({}, acquire ":1" "r" 1),
    ({}, acquire ":2" "w" 2)]

/-- A reader and a writer hold one direction each, and both are taken. -/
theorem Run.reader_and_writer_partition_locks :
    ∃ steps b t, Run (.empty {}) steps b ∧ t ∈ b.transports.toList ∧
      t.owners.toList.map Owner.access = [⟨true, false⟩, ⟨false, true⟩] ∧
      t.locks = Access.unions (t.owners.toList.map Owner.access) ∧
      t.owners.toList.length ≤ 2 := by
  have run := Broker.run_play Script.peers (.empty {}) Scene.readerAndWriter
  have hlive :
      (((Broker.empty {}).played Script.peers
        Scene.readerAndWriter).transports.toList.map
      fun t => t.owners.toList.map Owner.access) =
          [[⟨true, false⟩, ⟨false, true⟩]] := by
    decide
  obtain ⟨t, ht, howners⟩ := List.map_eq_singleton_iff.mp hlive
  have hmem := ht ▸ List.mem_singleton_self t
  obtain ⟨-, -, hlocks, -, hlen⟩ := run.owners_partition_locks t hmem
  exact ⟨_, _, t, run, hmem, howners, hlocks, hlen⟩

end AudioBroker
