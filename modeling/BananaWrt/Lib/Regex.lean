import BananaWrt.Lib.Lines
import Mathlib.Data.List.Forall2

/-!
# Regular expressions of a backtracking matcher

`run r m` lists the ways in which `r` matches from the place `m` on, in the order in which a
backtracking matcher finds them: an alternative before the next one, more of a greedy repetition
before less of it, less of a lazy one before more. A matcher takes the first of them, a search the
first at the first place that has one.
-/

namespace Regex

variable {α : Type*}

/-- A place in a text: what stands before it, the last character first, what stands after it, and
the groups that were matched on the way, the last one first. -/
structure Place (α : Type*) where
  before : List α
  after : List α
  groups : List (List α)

inductive Re (α : Type*) where
  /-- A place, told by what stands before and after it. -/
  | look (p : List α → List α → Bool)
  | one (p : α → Bool)
  | many (greedy : Bool) (p : α → Bool)
  | seq (r s : Re α)
  | alt (r s : Re α)
  | group (r : Re α)

/-- The places that characters in `p` lead to, the nearest first. -/
def spans (p : α → Bool) : List α → List α → List (List α × List α)
  | b, [] => [(b, [])]
  | b, c :: a => (b, c :: a) :: if p c then spans p (c :: b) a else []

def run : Re α → Place α → List (Place α)
  | .look p, m => if p m.before m.after then [m] else []
  | .one p, m =>
    match m.after with
    | [] => []
    | c :: a => if p c then [⟨c :: m.before, a, m.groups⟩] else []
  | .many greedy p, m =>
    let places := spans p m.before m.after
    (if greedy then places.reverse else places).map fun q => ⟨q.1, q.2, m.groups⟩
  | .seq r s, m => (run r m).flatMap (run s)
  | .alt r s, m => run r m ++ run s m
  | .group r, m =>
    (run r m).map fun m' =>
      { m' with groups := m.after.take (m.after.length - m'.after.length) :: m'.groups }

/-- What is matched at the beginning of a text. -/
def first (r : Re α) (a : List α) : Option (Place α) := (run r ⟨[], a, []⟩).head?

/-- The first match in a text that goes on with `a` after `b`. -/
def search (r : Re α) : List α → List α → Option (Place α)
  | b, [] => (run r ⟨b, [], []⟩).head?
  | b, c :: a => (run r ⟨b, c :: a, []⟩).head?.or (search r (c :: b) a)

/-- Every match becomes `new`; `skip` characters still belong to the last one. A match of nothing is
passed over. -/
def subFrom (r : Re α) (new : List α) : ℕ → List α → List α → List α
  | _, _, [] => []
  | 0, b, c :: a =>
    match (run r ⟨b, c :: a, []⟩).head? with
    | none => c :: subFrom r new 0 (c :: b) a
    | some m =>
      if m.after.length ≤ a.length then
        new ++ subFrom r new (a.length - m.after.length) (c :: b) a
      else c :: subFrom r new 0 (c :: b) a
  | skip + 1, b, c :: a => subFrom r new skip (c :: b) a

def sub (r : Re α) (new a : List α) : List α := subFrom r new 0 [] a

def found (r : Re α) (a : List α) : Bool := (search r [] a).isSome

namespace Re

def eps : Re α := .look fun _ _ => true

/-- One after the other the characters that agree with those of `w`. -/
def lit (agree : α → α → Bool) (w : List α) : Re α := w.foldr (fun c r => seq (one (agree c)) r) eps

def plus (greedy : Bool) (p : α → Bool) : Re α := seq (one p) (many greedy p)

/-- The first of them that matches. -/
def oneOf : List (Re α) → Re α
  | [] => .look fun _ _ => false
  | [r] => r
  | r :: rs => alt r (oneOf rs)

def start : Re α := .look fun b _ => b.isEmpty

def stop : Re α := .look fun _ a => a.isEmpty

/-- Of the characters beside the place one is in `p` and one is not. -/
def boundary (p : α → Bool) : Re α := .look fun b a => b.head?.any p != a.head?.any p

end Re

theorem search_eq_none_iff {r : Re α} : ∀ {a b : List α}, search r b a = none ↔
    ∀ x y, a = x ++ y → run r ⟨x.reverse ++ b, y, []⟩ = []
  | [], b => by
    constructor
    · intro h x y hxy
      obtain ⟨rfl, rfl⟩ := List.append_eq_nil_iff.1 hxy.symm
      simpa [search] using h
    · intro h
      simpa [search] using h [] [] rfl
  | c :: a, b => by
    have ih := search_eq_none_iff (r := r) (a := a) (b := c :: b)
    rw [search, Option.or_eq_none_iff, ih, List.head?_eq_none_iff]
    constructor
    · rintro ⟨h1, h2⟩ x y hxy
      cases x with
      | nil =>
        cases hxy
        exact h1
      | cons c' x =>
        obtain ⟨rfl, rfl⟩ := List.cons.inj hxy
        simpa using h2 x y rfl
    · intro h
      refine ⟨h [] (c :: a) rfl, fun x y hxy => ?_⟩
      simpa using h (c :: x) y (by rw [hxy]; rfl)

theorem subFrom_eq_self {r : Re α} (new : List α) : ∀ {a b : List α}, search r b a = none →
    subFrom r new 0 b a = a
  | [], _, _ => rfl
  | c :: a, b, h => by
    obtain ⟨h1, h2⟩ := Option.or_eq_none_iff.1 h
    simp only [subFrom, h1, subFrom_eq_self new h2]

theorem sub_eq_self {r : Re α} {a : List α} (h : found r a = false) (new : List α) :
    sub r new a = a :=
  subFrom_eq_self new (Option.isSome_eq_false_iff.1 h |> Option.isNone_iff_eq_none.1)

theorem subFrom_one_nil (p : α → Bool) : ∀ a b : List α,
    subFrom (.one p) [] 0 b a = a.filter (fun c => !p c)
  | [], _ => rfl
  | c :: a, b => by
    by_cases hc : p c
    · simp [subFrom, run, hc, subFrom_one_nil p a]
    · simp [subFrom, run, hc, subFrom_one_nil p a]

theorem mem_subFrom {r : Re α} {new : List α} {d : α} : ∀ {skip : ℕ} {b a : List α},
    d ∈ subFrom r new skip b a → d ∈ new ∨ d ∈ a
  | _, _, [], h => by
    rw [subFrom] at h
    cases h
  | 0, b, c :: a, h => by
    have hcons : d ∈ c :: subFrom r new 0 (c :: b) a → d ∈ new ∨ d ∈ c :: a := fun h =>
      (List.mem_cons.1 h).elim (fun hc => .inr (hc ▸ List.mem_cons_self))
        fun h => (mem_subFrom h).imp_right (List.mem_cons_of_mem c)
    rw [subFrom] at h
    split at h
    · exact hcons h
    · split_ifs at h
      · exact (List.mem_append.1 h).elim .inl
          fun h => (mem_subFrom h).imp_right (List.mem_cons_of_mem c)
      · exact hcons h
  | skip + 1, b, c :: a, h => by
    rw [subFrom] at h
    exact (mem_subFrom h).imp_right (List.mem_cons_of_mem c)

theorem run_lit [DecidableEq α] : ∀ (w : List α) (m : Place α),
    run (.lit (fun c d => c = d) w) m =
      if w <+: m.after then [⟨w.reverse ++ m.before, m.after.drop w.length, m.groups⟩] else []
  | [], ⟨_, _, _⟩ => by simp [Re.lit, Re.eps, run]
  | c :: w, ⟨b, [], g⟩ => by simp [Re.lit, run]
  | c :: w, ⟨b, d :: a, g⟩ => by
    have ih := run_lit w ⟨d :: b, a, g⟩
    unfold Re.lit at ih
    by_cases hcd : c = d
    · simp [Re.lit, run, hcd, ih]
    · simp [Re.lit, run, hcd]

/-- The characters of `w` match where those of the text agree with them. -/
theorem run_lit_ne_nil {agree : α → α → Bool} : ∀ {w b a : List α} {g : List (List α)},
    run (.lit agree w) ⟨b, a, g⟩ ≠ [] ↔ ∃ y z, a = y ++ z ∧ List.Forall₂ (fun c d => agree c d) w y
  | [], b, a, g => by
    refine iff_of_true (by simp [Re.lit, Re.eps, run]) ⟨[], a, rfl, .nil⟩
  | c :: w, b, [], g => by
    refine iff_of_false (by simp [Re.lit, run]) ?_
    rintro ⟨y, z, hyz, hy⟩
    obtain ⟨rfl, rfl⟩ := List.append_eq_nil_iff.1 hyz.symm
    cases hy
  | c :: w, b, d :: a, g => by
    have ih : run (.lit agree w) ⟨d :: b, a, g⟩ ≠ [] ↔ _ := run_lit_ne_nil
    unfold Re.lit at ih
    by_cases hcd : agree c d
    · simp only [Re.lit, List.foldr_cons, run, if_pos hcd, List.flatMap_cons, List.flatMap_nil,
        List.append_nil]
      rw [ih]
      constructor
      · rintro ⟨y, z, rfl, hy⟩
        exact ⟨d :: y, z, rfl, .cons hcd hy⟩
      · rintro ⟨y, z, hyz, hy⟩
        cases hy with
        | cons hd hy =>
          obtain ⟨rfl, rfl⟩ := List.cons.inj hyz
          exact ⟨_, z, rfl, hy⟩
    · refine iff_of_false (by simp [Re.lit, run, hcd]) ?_
      rintro ⟨y, z, hyz, hy⟩
      cases hy with
      | cons hd hy =>
        obtain ⟨rfl, rfl⟩ := List.cons.inj hyz
        exact hcd hd

theorem found_iff {r : Re α} {a : List α} :
    found r a ↔ ∃ x y, a = x ++ y ∧ run r ⟨x.reverse, y, []⟩ ≠ [] := by
  unfold found
  rw [Option.isSome_iff_ne_none, Ne, search_eq_none_iff]
  push Not
  simp

/-- The characters of `w` are found where those of a part of the text agree with them. -/
theorem found_lit_iff {agree : α → α → Bool} {w a : List α} :
    found (.lit agree w) a ↔ ∃ y, y <:+: a ∧ List.Forall₂ (fun c d => agree c d) w y := by
  rw [found_iff]
  constructor
  · rintro ⟨x, _, rfl, h⟩
    obtain ⟨y, z, rfl, hy⟩ := run_lit_ne_nil.1 h
    exact ⟨y, ⟨x, z, by simp⟩, hy⟩
  · rintro ⟨y, ⟨x, z, rfl⟩, hy⟩
    exact ⟨x, y ++ z, by simp, run_lit_ne_nil.2 ⟨y, z, rfl, hy⟩⟩

theorem found_lit_of_infix {agree : α → α → Bool} (hself : ∀ c, agree c c) {w a : List α}
    (h : w <:+: a) : found (.lit agree w) a :=
  found_lit_iff.2 ⟨w, h, List.forall₂_same.2 fun c _ => hself c⟩

/-- A text that does not hold `w` has no match that begins with it. -/
theorem found_lit [DecidableEq α] {w a : List α} (h : ¬ w <:+: a) (r : Re α) :
    found (.seq (.lit (fun c d => c = d) w) r) a = false := by
  have hnone : search (.seq (.lit (fun c d => c = d) w) r) [] a = none := by
    refine search_eq_none_iff.2 fun x y hxy => ?_
    rw [run, run_lit, if_neg, List.flatMap_nil]
    rintro ⟨z, hz⟩
    refine h ⟨x, z, ?_⟩
    rw [hxy, List.append_assoc]
    exact congrArg (x ++ ·) hz
  rw [found, hnone]
  rfl

/-- A lazy repetition stops where the rest first matches. -/
theorem head?_flatMap_spans {β : Type*} {p : α → Bool} {f : List α × List α → List β} {y : List α} :
    ∀ {x b : List α}, (∀ c ∈ x, p c) → f (x.reverse ++ b, y) ≠ [] →
      (∀ x₁ x₂, x = x₁ ++ x₂ → x₂ ≠ [] → f (x₁.reverse ++ b, x₂ ++ y) = []) →
      ((spans p b (x ++ y)).flatMap f).head? = (f (x.reverse ++ b, y)).head?
  | [], b, _, hne, _ => by
    obtain ⟨m, ms, hm⟩ := List.exists_cons_of_ne_nil hne
    obtain ⟨rest, hrest⟩ : ∃ rest, spans p b y = (b, y) :: rest := by
      cases y with
      | nil => exact ⟨[], rfl⟩
      | cons c y => exact ⟨_, rfl⟩
    rw [List.nil_append, hrest, List.flatMap_cons]
    rw [List.reverse_nil, List.nil_append] at hm ⊢
    rw [hm]
    rfl
  | c :: x, b, hp, hne, hnone => by
    have hhere : f (b, c :: (x ++ y)) = [] := hnone [] (c :: x) rfl (List.cons_ne_nil c x)
    have hsplit : ∀ x₁ x₂, x = x₁ ++ x₂ → x₂ ≠ [] → f (x₁.reverse ++ c :: b, x₂ ++ y) = [] := by
      intro x₁ x₂ hx hx₂
      simpa using hnone (c :: x₁) x₂ (by rw [hx]; rfl) hx₂
    rw [List.cons_append, spans, if_pos (hp c List.mem_cons_self), List.flatMap_cons, hhere,
      List.nil_append, head?_flatMap_spans (fun d hd => hp d (List.mem_cons_of_mem c hd))
        (by simpa using hne) hsplit]
    simp

/-- A greedy repetition goes on as far as it can. -/
theorem getLast?_spans {p : α → Bool} {y : List α} (hy : ∀ c ∈ y.head?, ¬ p c) :
    ∀ {x b : List α}, (∀ c ∈ x, p c) → (spans p b (x ++ y)).getLast? = some (x.reverse ++ b, y)
  | [], b, _ => by
    cases y with
    | nil => rfl
    | cons c y =>
      have hc : ¬ p c := hy c rfl
      simp [spans, hc]
  | c :: x, b, hp => by
    have ih := getLast?_spans hy (b := c :: b) fun d hd => hp d (List.mem_cons_of_mem c hd)
    rw [List.cons_append, spans, if_pos (hp c List.mem_cons_self), List.getLast?_cons, ih]
    simp

/-- The part of a text before its rest. -/
theorem take_length_sub (x y : List α) : (x ++ y).take ((x ++ y).length - y.length) = x := by
  rw [List.length_append, Nat.add_sub_cancel, List.take_left]

theorem run_group_plus_lazy {p : α → Bool} {c : α} (hc : p c) (a b : List α)
    (g : List (List α)) : run (.group (.plus false p)) ⟨b, c :: a, g⟩ = (spans p (c :: b) a).map
      fun q => ⟨q.1, q.2, (c :: a).take ((c :: a).length - q.2.length) :: g⟩ := by
  simp [Re.plus, run, hc]

theorem head?_run_group_plus {p : α → Bool} {x y : List α} (hx : x ≠ []) (hp : ∀ c ∈ x, p c)
    (hy : ∀ c ∈ y.head?, ¬ p c) (b : List α) (g : List (List α)) :
    (run (.group (.plus true p)) ⟨b, x ++ y, g⟩).head? = some ⟨x.reverse ++ b, y, x :: g⟩ := by
  obtain ⟨c, x, rfl⟩ := List.exists_cons_of_ne_nil hx
  have hlast := getLast?_spans hy (b := c :: b) fun d hd => hp d (List.mem_cons_of_mem c hd)
  have htake : (c :: (x ++ y)).take ((c :: (x ++ y)).length - y.length) = c :: x :=
    take_length_sub (c :: x) y
  simp only [Re.plus, run, List.cons_append, hp c List.mem_cons_self, ↓reduceIte,
    List.flatMap_cons, List.flatMap_nil, List.append_nil, List.head?_map, List.head?_reverse,
    hlast, Option.map_some, htake, List.reverse_cons, List.append_assoc, List.nil_append]

theorem head?_run_plus {p : α → Bool} {c : α} (hc : p c) (a b : List α) (g : List (List α)) :
    ∃ b', (run (.plus true p) ⟨b, c :: a, g⟩).head? = some ⟨b', a.dropWhile p, g⟩ := by
  have hrun : ∀ d ∈ a.takeWhile p, p d := fun d => List.mem_takeWhile_imp
  have hlast := getLast?_spans (p := p) (List.head?_dropWhile a) (b := c :: b) hrun
  rw [List.takeWhile_append_dropWhile] at hlast
  refine ⟨(a.takeWhile p).reverse ++ c :: b, ?_⟩
  simp only [Re.plus, run, hc, ↓reduceIte, List.flatMap_cons, List.flatMap_nil, List.append_nil,
    List.head?_map, List.head?_reverse, hlast, Option.map_some]

/-- The rest of a match is passed over. -/
theorem subFrom_skip (r : Re α) (new : List α) : ∀ (x y b : List α),
    subFrom r new x.length b (x ++ y) = subFrom r new 0 (x.reverse ++ b) y
  | [], _, _ => rfl
  | c :: x, y, b => by
    rw [List.length_cons, List.cons_append, subFrom, subFrom_skip r new x y (c :: b)]
    simp

theorem subFrom_of_match {r : Re α} {new : List α} {c : α} {a b b' : List α} {p : α → Bool}
    {g : List (List α)} (h : (run r ⟨b, c :: a, []⟩).head? = some ⟨b', a.dropWhile p, g⟩) :
    subFrom r new 0 b (c :: a)
      = new ++ subFrom r new 0 ((a.takeWhile p).reverse ++ c :: b) (a.dropWhile p) := by
  have hlength : a.length - (a.dropWhile p).length = (a.takeWhile p).length := by
    have hsum := congrArg List.length (List.takeWhile_append_dropWhile (p := p) (l := a))
    rw [List.length_append] at hsum
    omega
  have hskip := subFrom_skip r new (a.takeWhile p) (a.dropWhile p) (c :: b)
  rw [List.takeWhile_append_dropWhile] at hskip
  rw [subFrom, h]
  dsimp only
  rw [if_pos (List.length_dropWhile_le p a), hlength, hskip]

theorem subFrom_plus (p : α → Bool) (new : List α) : ∀ (a b b' : List α),
    subFrom (.plus true p) new 0 b a = subFrom (.plus true p) new 0 b' a
  | [], _, _ => rfl
  | c :: a, b, b' => by
    by_cases hc : p c
    · obtain ⟨d, hd⟩ := head?_run_plus hc a b []
      obtain ⟨d', hd'⟩ := head?_run_plus hc a b' []
      rw [subFrom_of_match hd, subFrom_of_match hd', subFrom_plus p new (a.dropWhile p)]
    · have hnone : ∀ b, run (.plus true p) ⟨b, c :: a, []⟩ = [] := fun b => by
        simp [Re.plus, run, hc]
      rw [subFrom, subFrom, hnone, hnone]
      dsimp only [List.head?_nil]
      rw [subFrom_plus p new a (c :: b) (c :: b')]
termination_by a => a.length
decreasing_by
  · exact Nat.lt_succ_of_le (List.length_dropWhile_le p a)
  · exact Nat.lt_succ_self _

theorem sub_plus_of_not {p : α → Bool} {c : α} (hc : ¬ p c) (new a : List α) :
    sub (.plus true p) new (c :: a) = c :: sub (.plus true p) new a := by
  have hnone : run (.plus true p) ⟨[], c :: a, []⟩ = [] := by simp [Re.plus, run, hc]
  unfold sub
  rw [subFrom, hnone]
  dsimp only [List.head?_nil]
  rw [subFrom_plus p new a [c] []]

/-- A run of the characters becomes `new` once. -/
theorem sub_plus_of_pos {p : α → Bool} {c : α} (hc : p c) (new a : List α) :
    sub (.plus true p) new (c :: a) = new ++ sub (.plus true p) new (a.dropWhile p) := by
  obtain ⟨b', hb'⟩ := head?_run_plus hc a [] []
  unfold sub
  rw [subFrom_of_match hb', subFrom_plus p new (a.dropWhile p) _ []]

theorem sub_plus_append {p : α → Bool} {x : List α} (hx : x ≠ []) (hp : ∀ c ∈ x, p c)
    (new : List α) {y : List α} (hy : ∀ c ∈ y.head?, ¬ p c) :
    sub (.plus true p) new (x ++ y) = new ++ sub (.plus true p) new y := by
  obtain ⟨c, x, rfl⟩ := List.exists_cons_of_ne_nil hx
  rw [List.cons_append, sub_plus_of_pos (hp c List.mem_cons_self),
    List.dropWhile_append_of_pos fun d hd => hp d (List.mem_cons_of_mem c hd),
    List.dropWhile_of_head? hy]

/-- What does not end in such a run is replaced for itself. -/
theorem sub_plus_append_of_getLast? {p : α → Bool} (new y : List α) : ∀ {x : List α},
    (∀ c ∈ x.getLast?, ¬ p c) →
      sub (.plus true p) new (x ++ y) = sub (.plus true p) new x ++ sub (.plus true p) new y
  | [], _ => rfl
  | [c], h => by
    have hc : ¬ p c := h c rfl
    rw [List.singleton_append, sub_plus_of_not hc, sub_plus_of_not hc]
    rfl
  | c :: d :: x, h => by
    have ih := sub_plus_append_of_getLast? new y (x := d :: x) h
    by_cases hc : p c
    · by_cases hd : p d
      · have hsame : ∀ a, sub (.plus true p) new (c :: d :: a)
            = sub (.plus true p) new (d :: a) := fun a => by
          rw [sub_plus_of_pos hc, sub_plus_of_pos hd, List.dropWhile_cons_of_pos hd]
        rw [List.cons_append, List.cons_append, hsame, hsame]
        exact ih
      · have hone : ∀ a, sub (.plus true p) new (c :: d :: a)
            = new ++ sub (.plus true p) new (d :: a) := fun a => by
          rw [sub_plus_of_pos hc, List.dropWhile_cons_of_neg hd]
        rw [List.cons_append, List.cons_append, hone, hone, List.append_assoc]
        exact congrArg (new ++ ·) ih
    · rw [List.cons_append, sub_plus_of_not hc, sub_plus_of_not hc, ih, List.cons_append]

/-- A run at the beginning of the text is left out. -/
theorem sub_start_plus (p : α → Bool) (a : List α) :
    sub (.seq .start (.plus true p)) [] a = a.dropWhile p := by
  have hafter : ∀ {b : List α} (y : List α), b ≠ [] →
      subFrom (.seq .start (.plus true p)) [] 0 b y = y := fun {b} y hb => by
    refine subFrom_eq_self [] (search_eq_none_iff.2 fun x z _ => ?_)
    simp [Re.start, run, hb]
  cases a with
  | nil => rfl
  | cons c a =>
    have hstart : run (.seq .start (.plus true p)) ⟨[], c :: a, []⟩
        = run (.plus true p) ⟨[], c :: a, []⟩ := by
      simp [Re.start, run]
    unfold sub
    by_cases hc : p c
    · obtain ⟨b', hb'⟩ := head?_run_plus hc a [] []
      rw [← hstart] at hb'
      rw [subFrom_of_match hb', List.nil_append, hafter _ (by simp),
        List.dropWhile_cons_of_pos hc]
    · have hnone : run (.plus true p) ⟨[], c :: a, []⟩ = [] := by simp [Re.plus, run, hc]
      rw [subFrom, hstart, hnone]
      dsimp only [List.head?_nil]
      rw [hafter _ (List.cons_ne_nil c []), List.dropWhile_cons_of_neg hc]

end Regex
