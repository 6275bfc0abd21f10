import Mathlib.Data.List.Infix
import Mathlib.Data.Set.Insert

/-!
# Adopting the atoms of an X server

`src/x11/util.c`. The name of an X11 atom has to be asked for, so the requests are sent first and
the replies are received later, in a round trip; only then are the output locations written. The
interner has room for a fixed number of requests, and of copies for atoms that are asked for
already; if an array is full there is a round trip in between. The context has a cache, of a fixed
size too.

The replies are a function of the X11 atom. A write beyond an array has no result, and neither has
a call that retries again after a round trip; `Xkbcommon.X11.x11_atoms_adopted` says that there
always is a result, and what the locations hold. The requests for escaped names, which have an
array of their own, are left out.
-/

namespace Xkbcommon.X11

open List Function

/-! ### The atoms of the context -/

/-- `xkb_atom_intern`: an atom is the position of its string in the table of the context. -/
def xkbAtomIntern (strings : List (List UInt8)) (name : List UInt8) : List (List UInt8) × ℕ :=
  if strings.contains name then (strings, strings.idxOf name + 1)
  else (strings ++ [name], strings.length + 1)

/-- The atom of a name. -/
def IsAtomOf (strings : List (List UInt8)) (name : List UInt8) (atom : ℕ) : Prop :=
  name ∈ strings ∧ atom = strings.idxOf name + 1

section Intern

variable {strings : List (List UInt8)} {name : List UInt8} {atom : ℕ}

theorem isAtomOf_xkbAtomIntern :
    IsAtomOf (xkbAtomIntern strings name).1 name (xkbAtomIntern strings name).2 := by
  unfold xkbAtomIntern
  split_ifs with h <;> rw [contains_iff_mem] at h
  · exact ⟨h, rfl⟩
  · refine ⟨mem_append_right _ (mem_singleton_self name), ?_⟩
    rw [idxOf_append_of_notMem h, idxOf_cons_self]

/-- An atom never changes. -/
theorem IsAtomOf.intern (h : IsAtomOf strings name atom) (other : List UInt8) :
    IsAtomOf (xkbAtomIntern strings other).1 name atom := by
  unfold xkbAtomIntern
  split_ifs
  · exact h
  · exact ⟨mem_append_left _ h.1, by rw [idxOf_append_of_mem h.1]; exact h.2⟩

end Intern

/-! ### The interner -/

/-- `struct x11_atom_cache`: the X11 atoms of a connection and their atoms. -/
structure X11AtomCache where
  conn : ℕ
  cache : List (ℕ × ℕ)

/-- What the interner asks for. -/
structure X11Env where
  conn : ℕ
  /-- The reply to a request for the name of an atom. -/
  reply : ℕ → Option (List UInt8)
  /-- Whether there is memory for the cache, at each attempt. -/
  calloc : ℕ → Bool

/-- `struct x11_atom_interner`, with its context and the memory at the output locations. -/
structure X11AtomInterner (α : Type) where
  strings : List (List UInt8) := []
  x11AtomCache : Option X11AtomCache := none
  callocs : ℕ := 0
  hadError : Bool := false
  pending : List (ℕ × α) := []
  copies : List (ℕ × α) := []
  out : α → ℕ

variable {α : Type} [DecidableEq α] (env : X11Env)

/-- The sizes of the arrays `pending` and `copies`. -/
def pendingSize : ℕ := 128

/-- The size of the array `cache`. -/
def cacheSize : ℕ := 256

/-- A write behind the elements of an array. -/
def push {β : Type} (size : ℕ) (array : List β) (b : β) : Option (List β) :=
  if array.length < size then some (array ++ [b]) else none

/-- `get_cache`. -/
def getCache (st : X11AtomInterner α) : X11AtomInterner α :=
  let cache := st.x11AtomCache.or (if env.calloc st.callocs then some ⟨0, []⟩ else none)
  { st with
    x11AtomCache := cache.map fun cache =>
      if cache.conn ≠ env.conn then ⟨env.conn, []⟩ else cache
    callocs := if st.x11AtomCache.isNone then st.callocs + 1 else st.callocs }

/-- The reply to a pending request, for the atom and its copies. -/
def receive (st : X11AtomInterner α) (request : ℕ × α) : X11AtomInterner α :=
  match env.reply request.1 with
  | none => { st with hadError := true }
  | some name =>
    let (strings, atom) := xkbAtomIntern st.strings name
    { st with
      strings
      x11AtomCache := st.x11AtomCache.map fun cache =>
        if cache.cache.length < cacheSize then
          { cache with cache := cache.cache ++ [(request.1, atom)] }
        else cache
      out := st.copies.foldl
        (fun out copy => if copy.1 = request.1 then Function.update out copy.2 atom else out)
        (Function.update st.out request.2 atom) }

/-- `x11_atom_interner_round_trip`. -/
def x11AtomInternerRoundTrip (st : X11AtomInterner α) : X11AtomInterner α :=
  let st := getCache env st
  { st.pending.foldl (receive env) st with pending := [], copies := [] }

/-- `x11_atom_interner_adopt_atom` from `retry` on, which is run again at most `left` times. The
cache is not looked at if there was none when the call began. -/
def adoptFrom (hasCache : Bool) (call : ℕ × α) : ℕ → X11AtomInterner α → Option (X11AtomInterner α)
  | left, st =>
    match st.x11AtomCache.bind fun cache =>
      if hasCache then cache.cache.lookup call.1 else none with
    | some atom => some { st with out := Function.update st.out call.2 atom }
    | none =>
      if st.pending.any (·.1 == call.1) then
        if st.copies.length = pendingSize then
          match left with
          | 0 => none
          | left + 1 => adoptFrom hasCache call left (x11AtomInternerRoundTrip env st)
        else (push pendingSize st.copies call).map fun copies => { st with copies }
      else
        let st := if st.pending.length = pendingSize then x11AtomInternerRoundTrip env st else st
        (push pendingSize st.pending call).map fun pending => { st with pending }

/-- `x11_atom_interner_adopt_atom`, of an X11 atom for a location. -/
def x11AtomInternerAdoptAtom (st : X11AtomInterner α) (call : ℕ × α) : Option (X11AtomInterner α) :=
  let st := { st with out := Function.update st.out call.2 0 }
  if call.1 = 0 then some st
  else
    let st := getCache env st
    adoptFrom env st.x11AtomCache.isSome call 1 st

/-! ### What the locations hold -/

variable {env} {name : ℕ → List UInt8} {atom : α → ℕ} {done : Set α} {st : X11AtomInterner α}
  {o : α}

/-- A location holds the atom of the name of its X11 atom, and `XKB_ATOM_NONE` for the null
atom. -/
def Holds (name : ℕ → List UInt8) (atom : α → ℕ) (st : X11AtomInterner α) (o : α) : Prop :=
  if atom o = 0 then st.out o = 0 else IsAtomOf st.strings (name (atom o)) (st.out o)

/-- The cache fits its array and has the right atoms, if it is one that is used. -/
def CacheOk (used : X11AtomCache → Prop) (name : ℕ → List UInt8) (st : X11AtomInterner α) : Prop :=
  ∀ cache, st.x11AtomCache = some cache → cache.cache.length ≤ cacheSize ∧
    (used cache → ∀ e ∈ cache.cache, IsAtomOf st.strings (name e.1) e.2)

/-- **The invariant**: the arrays are within their sizes and have the atoms of their locations; a
location in `done` has been written, or is pending, or is a copy of a pending one. -/
structure Adopted (name : ℕ → List UInt8) (atom : α → ℕ) (done : Set α) (st : X11AtomInterner α) :
    Prop where
  pending_le : st.pending.length ≤ pendingSize
  copies_le : st.copies.length ≤ pendingSize
  pending : ∀ p ∈ st.pending, p.1 = atom p.2 ∧ p.1 ≠ 0
  copies : ∀ p ∈ st.copies, p.1 = atom p.2
  done : ∀ o ∈ done, Holds name atom st o ∨ (atom o, o) ∈ st.pending ∨
    (atom o, o) ∈ st.copies ∧ ∃ q ∈ st.pending, q.1 = atom o

omit [DecidableEq α] in
theorem Adopted.getCache (h : Adopted name atom done st) :
    Adopted name atom done (getCache env st) :=
  ⟨h.pending_le, h.copies_le, h.pending, h.copies, h.done⟩

/-- A location that is not counted may be written. -/
theorem Adopted.write (h : Adopted name atom (done \ {o}) st) (value : ℕ) :
    Adopted name atom (done \ {o}) { st with out := Function.update st.out o value } := by
  refine ⟨h.pending_le, h.copies_le, h.pending, h.copies, fun o' ho' => ?_⟩
  refine (h.done o' ho').imp_left fun hold => ?_
  simpa only [Holds, update_of_ne ho'.2] using hold

/-- The location is counted once it has been written or asked for. -/
theorem Adopted.count (h : Adopted name atom (done \ {o}) st)
    (hnow : Holds name atom st o ∨ (atom o, o) ∈ st.pending ∨
      (atom o, o) ∈ st.copies ∧ ∃ q ∈ st.pending, q.1 = atom o) :
    Adopted name atom (insert o done) st := by
  refine ⟨h.pending_le, h.copies_le, h.pending, h.copies, fun o' ho' => ?_⟩
  by_cases heq : o' = o
  · rwa [heq]
  · exact h.done o' ⟨ho'.resolve_left heq, heq⟩

omit [DecidableEq α] in
theorem CacheOk.used {used : X11AtomCache → Prop} (h : CacheOk (fun _ => True) name st) :
    CacheOk used name st :=
  fun cache hcache => ⟨(h cache hcache).1, fun _ => (h cache hcache).2 trivial⟩

omit [DecidableEq α] in
theorem cacheOk_getCache (h : CacheOk (·.conn = env.conn) name st) :
    CacheOk (fun _ => True) name (getCache env st) := by
  intro cache hcache
  obtain ⟨old, hold, rfl⟩ := Option.map_eq_some_iff.mp hcache
  split_ifs with hconn
  · exact ⟨Nat.zero_le _, fun _ e he => absurd he not_mem_nil⟩
  · rcases Option.or_eq_some_iff.mp hold with hold | ⟨-, hnew⟩
    · obtain ⟨hlen, hentries⟩ := h old hold
      exact ⟨hlen, fun _ => hentries (not_not.mp hconn)⟩
    · split_ifs at hnew
      cases hnew
      exact ⟨Nat.zero_le _, fun _ e he => absurd he not_mem_nil⟩

theorem foldl_update (copies : List (ℕ × α)) (x : ℕ) {value : ℕ} (out : α → ℕ) :
    copies.foldl (fun out copy => if copy.1 = x then Function.update out copy.2 value else out) out
      o = if (x, o) ∈ copies then value else out o := by
  induction copies generalizing out with
  | nil => rfl
  | cons p copies ih =>
    obtain ⟨x', o'⟩ := p
    rw [foldl_cons, ih]
    by_cases hx : x' = x
    · by_cases ho : o = o' <;> simp [ho, hx]
    · simp [hx, Ne.symm hx]

section Replies

variable (hreply : ∀ x, env.reply x = some (name x)) {p : ℕ × α}

include hreply

theorem cacheOk_receive (h : CacheOk (fun _ => True) name st) :
    CacheOk (fun _ => True) name (receive env st p) := by
  rw [receive, hreply]
  intro cache hcache
  obtain ⟨old, hold, rfl⟩ := Option.map_eq_some_iff.mp hcache
  obtain ⟨hlen, hentries⟩ := h old hold
  have hkept := fun e he => (hentries trivial e he).intern (name p.1)
  split_ifs with hroom
  · refine ⟨by simpa using Nat.succ_le_of_lt hroom, fun _ e he => ?_⟩
    rcases mem_append.mp he with he | he
    · exact hkept e he
    · rw [mem_singleton.mp he]
      exact isAtomOf_xkbAtomIntern
  · exact ⟨hlen, fun _ => hkept⟩

/-- A reply answers its request and the copies of it, and leaves what has been answered. -/
theorem Adopted.receive {ps : List (ℕ × α)}
    (h : Adopted name atom done { st with pending := p :: ps }) :
    Adopted name atom done { receive env st p with pending := ps } := by
  obtain ⟨hatom, hzero⟩ := h.pending p mem_cons_self
  have hwritten : ∀ o, o = p.2 ∨ (p.1, o) ∈ st.copies → p.1 = atom o := by
    rintro o (rfl | hmem)
    · exact hatom
    · exact h.copies _ hmem
  rw [X11.receive, hreply]
  refine ⟨(Nat.le_succ _).trans h.pending_le, h.copies_le,
    fun q hq => h.pending q (mem_cons_of_mem p hq), h.copies, fun o ho => ?_⟩
  simp only [Holds, foldl_update, update_apply]
  by_cases hnow : o = p.2 ∨ (p.1, o) ∈ st.copies
  · -- the locations that are written are those of the atom
    have heq := hwritten o hnow
    have hif : ∀ v v' : ℕ, (if (p.1, o) ∈ st.copies then v else if o = p.2 then v else v') = v := by
      intro v v'
      rcases hnow with h | h <;> simp [h]
    rw [hif, ← heq, if_neg hzero]
    exact .inl isAtomOf_xkbAtomIntern
  · obtain ⟨hne, hcopy⟩ := not_or.mp hnow
    rw [if_neg hcopy, if_neg hne]
    rcases h.done o ho with hold | hmem | ⟨hmem, q, hq, heq⟩
    · refine .inl ?_
      rw [Holds] at hold
      split_ifs at hold ⊢ with hnull
      · exact hold
      · exact hold.intern _
    · rcases mem_cons.mp hmem with rfl | hmem
      · exact absurd rfl hne
      · exact .inr (.inl hmem)
    · rcases mem_cons.mp hq with rfl | hq
      · exact absurd (heq ▸ hmem) hcopy
      · exact .inr (.inr ⟨hmem, q, hq, heq⟩)

/-- **A round trip answers everything.** -/
theorem Adopted.roundTrip (h : Adopted name atom done st)
    (hcache : CacheOk (·.conn = env.conn) name st) :
    Adopted name atom done (x11AtomInternerRoundTrip env st) ∧
      CacheOk (fun _ => True) name (x11AtomInternerRoundTrip env st) ∧
      ∀ o ∈ done, Holds name atom (x11AtomInternerRoundTrip env st) o := by
  have hreplies : ∀ (ps : List (ℕ × α)) (st : X11AtomInterner α),
      Adopted name atom done { st with pending := ps } →
      Adopted name atom done { ps.foldl (X11.receive env) st with pending := [] } := by
    intro ps
    induction ps with
    | nil => exact fun st h => h
    | cons p ps ih => exact fun st h => ih _ (h.receive hreply)
  have h' := hreplies st.pending (X11.getCache env st) h.getCache
  have hholds : ∀ o ∈ done, Holds name atom (x11AtomInternerRoundTrip env st) o := fun o ho =>
    (h'.done o ho).resolve_right fun hmem => hmem.elim (absurd · not_mem_nil)
      fun ⟨_, q, hq, _⟩ => absurd hq not_mem_nil
  refine ⟨⟨Nat.zero_le _, Nat.zero_le _, ?_, ?_, fun o ho => .inl (hholds o ho)⟩, ?_, hholds⟩
  · exact fun p hp => absurd hp not_mem_nil
  · exact fun p hp => absurd hp not_mem_nil
  · exact foldlRecOn (motive := CacheOk (fun _ => True) name) _ _ (cacheOk_getCache hcache)
      fun _ h p _ => cacheOk_receive hreply h

/-- A call from `retry` on. After a round trip nothing is pending, so there is no second one. -/
theorem Adopted.adoptFrom {left : ℕ} (h : Adopted name atom (done \ {o}) st)
    (hcache : CacheOk (fun _ => True) name st) (hzero : atom o ≠ 0) (hasCache : Bool)
    (hleft : left = 0 → (st.pending.any (·.1 == atom o)) = true → st.copies.length ≠ pendingSize) :
    ∃ st', adoptFrom env hasCache (atom o, o) left st = some st' ∧
      Adopted name atom (insert o done) st' ∧ CacheOk (fun _ => True) name st' := by
  have hpush : ∀ {array : List (ℕ × α)} {call p : ℕ × α},
      p ∈ array ++ [call] → p ∈ array ∨ p = call :=
    fun hp => (mem_append.mp hp).imp_right mem_singleton.mp
  have hlast : ∀ array : List (ℕ × α), (atom o, o) ∈ array ++ [(atom o, o)] :=
    fun array => mem_append_right _ (mem_singleton_self _)
  have hsend : ∀ {st : X11AtomInterner α}, Adopted name atom (done \ {o}) st →
      st.pending.length < pendingSize →
      Adopted name atom (insert o done) { st with pending := st.pending ++ [(atom o, o)] } := by
    intro st h hlt
    refine Adopted.count ⟨?_, h.copies_le, fun p hp => ?_, h.copies, fun o' ho' => ?_⟩
      (.inr (.inl (hlast _)))
    · exact (length_append ..).trans_le hlt
    · rcases hpush hp with hp | rfl
      · exact h.pending p hp
      · exact ⟨rfl, hzero⟩
    · refine (h.done o' ho').imp_right (Or.imp (mem_append_left _) ?_)
      rintro ⟨hmem, q, hq, heq⟩
      exact ⟨hmem, q, mem_append_left _ hq, heq⟩
  induction left using Nat.strong_induction_on generalizing st with
  | _ left ih =>
    obtain ⟨htrip, hcache', -⟩ := h.roundTrip hreply hcache.used
    unfold X11.adoptFrom
    split
    · rename_i value hlookup
      obtain ⟨cache, hc, hvalue⟩ := Option.bind_eq_some_iff.mp hlookup
      split_ifs at hvalue
      obtain ⟨l, l', hentries, -⟩ := lookup_eq_some_iff.mp hvalue
      refine ⟨_, rfl, Adopted.count (h.write value) (.inl ?_), hcache⟩
      simp only [Holds, if_neg hzero, update_self]
      exact (hcache cache hc).2 trivial (atom o, value) (by simp [hentries])
    · split_ifs with hpending hfull hfull
      · cases left with
        | zero => exact absurd hfull (hleft rfl hpending)
        | succ left =>
          exact ih left (Nat.lt_succ_self left) htrip hcache' fun _ h => absurd h Bool.false_ne_true
      · have hlt := lt_of_le_of_ne h.copies_le hfull
        obtain ⟨q, hq, heq⟩ := any_eq_true.mp hpending
        refine ⟨{ st with copies := st.copies ++ [(atom o, o)] }, by simp [push, hlt],
          Adopted.count ⟨h.pending_le, ?_, h.pending, fun p hp => ?_, fun o' ho' => ?_⟩
            (.inr (.inr ⟨hlast _, q, hq, beq_iff_eq.mp heq⟩)), hcache⟩
        · exact (length_append ..).trans_le hlt
        · rcases hpush hp with hp | rfl
          · exact h.copies p hp
          · rfl
        · exact (h.done o' ho').imp_right (Or.imp_right (And.imp_left (mem_append_left _)))
      · exact ⟨_, rfl, hsend htrip (show 0 < pendingSize by decide), hcache'⟩
      · have hlt := lt_of_le_of_ne h.pending_le hfull
        exact ⟨{ st with pending := st.pending ++ [(atom o, o)] }, by simp [push, hlt], hsend h hlt,
          hcache⟩

/-- **A call has a result, and is counted from then on.** -/
theorem Adopted.adoptAtom (h : Adopted name atom done st)
    (hcache : CacheOk (·.conn = env.conn) name st) (o : α) :
    ∃ st', x11AtomInternerAdoptAtom env st (atom o, o) = some st' ∧
      Adopted name atom (insert o done) st' ∧ CacheOk (·.conn = env.conn) name st' := by
  have hfree : Adopted name atom (done \ {o}) st :=
    ⟨h.pending_le, h.copies_le, h.pending, h.copies, fun o' ho' => h.done o' ho'.1⟩
  unfold x11AtomInternerAdoptAtom
  dsimp only
  split_ifs with hzero
  · refine ⟨_, rfl, (hfree.write 0).count (.inl ?_), hcache⟩
    simp only [Holds, if_pos hzero, update_self]
  · obtain ⟨st', hst', h', hcache'⟩ := (hfree.write 0).getCache.adoptFrom hreply
      (cacheOk_getCache hcache) hzero _ fun (h : 1 = 0) => absurd h Nat.one_ne_zero
    exact ⟨st', hst', h', hcache'.used⟩

end Replies

/-- **Adoption is complete.** Every location has an X11 atom. For any sequence of locations, from a
new interner and a context whose cache has the atoms of the names if it is that of the connection,
no array is exceeded, and after the round trip every location of the sequence holds the atom of the
name. The cache can be used again. -/
theorem x11_atoms_adopted (hreply : ∀ x, env.reply x = some (name x)) (atom : α → ℕ)
    (hcache : CacheOk (·.conn = env.conn) name st) (hpending : st.pending = [])
    (hcopies : st.copies = []) (locations : List α) :
    ∃ st', (locations.map fun o => (atom o, o)).foldlM (x11AtomInternerAdoptAtom env) st =
      some st' ∧
      st'.pending.length ≤ pendingSize ∧ st'.copies.length ≤ pendingSize ∧
      CacheOk (·.conn = env.conn) name st' ∧
      CacheOk (fun _ => True) name (x11AtomInternerRoundTrip env st') ∧
      ∀ o ∈ locations, Holds name atom (x11AtomInternerRoundTrip env st') o := by
  have hrun : ∃ st', (locations.map fun o => (atom o, o)).foldlM (x11AtomInternerAdoptAtom env) st =
      some st' ∧ Adopted name atom {o | o ∈ locations} st' ∧
      CacheOk (·.conn = env.conn) name st' := by
    induction locations using reverseRecOn with
    | nil => exact ⟨st, rfl, ⟨by simp [hpending], by simp [hcopies], by simp [hpending],
        by simp [hcopies], by simp⟩, hcache⟩
    | append_singleton locations o ih =>
      obtain ⟨st₁, hst₁, h₁, hcache₁⟩ := ih
      obtain ⟨st₂, hst₂, h₂⟩ := h₁.adoptAtom hreply hcache₁ o
      have hcounted : {o' | o' ∈ locations ++ [o]} = insert o {o' | o' ∈ locations} := by
        ext o'
        simp [or_comm]
      exact ⟨st₂, by simp [hst₁, hst₂], hcounted ▸ h₂⟩
  obtain ⟨st', hst', h, hcache'⟩ := hrun
  obtain ⟨-, hcache₂, hholds⟩ := h.roundTrip hreply hcache'
  exact ⟨st', hst', h.pending_le, h.copies_le, hcache', hcache₂, hholds⟩

/-- A server on which the name of an X11 atom is one byte. -/
def byteServer : X11Env := ⟨1, fun x => some [UInt8.ofNat x], fun _ => true⟩

/-- An atom that is adopted twice, another one and the null atom. -/
theorem x11_atoms_adopted_twice :
    ∃ st', ([0, 1, 2, 3].map fun o => (([5, 5, 0, 7].getD o 0 : ℕ), o)).foldlM
        (x11AtomInternerAdoptAtom byteServer) { out := fun _ => 9 } = some st' ∧
      ∀ o ∈ [0, 1, 2, 3], Holds (fun x => [UInt8.ofNat x]) ([5, 5, 0, 7].getD · 0)
        (x11AtomInternerRoundTrip byteServer st') o := by
  have hcache : CacheOk (·.conn = byteServer.conn) (fun x => [UInt8.ofNat x])
      ({ out := fun _ => 9 } : X11AtomInterner ℕ) := fun _ h => by cases h
  obtain ⟨st', hst', -, -, -, -, hholds⟩ :=
    x11_atoms_adopted (fun _ => rfl) ([5, 5, 0, 7].getD · 0) hcache rfl rfl [0, 1, 2, 3]
  exact ⟨st', hst', hholds⟩

end Xkbcommon.X11
