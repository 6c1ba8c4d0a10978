import BananaWrt.Lib.Lines
import BananaWrt.PathStatus
import BananaWrt.Proofs.ModemRegistry

/-!
# The cache is a map as long as paths do not find each other

While each path finds its own line and no other, the file has one line for each path with a status
(`Holds`), and what is printed for a path is its status. Each call that keeps the paths apart keeps
this, and changes the line of its own path only.
-/

namespace BananaWrt

namespace PathStatus

open Regex (found)
open Registry (agree agree_self)

variable {t : Tools} {ps : List Path} {s s' : St} {cache : List Rec}

/-- The status is what `-F','` has for `$2`. -/
theorem Rec.field_two (r : Rec) : (r.line.splitOn ',').getD 1 [] = r.status.chars := by
  unfold Rec.line
  rw [List.splitOn_append_cons_self, List.splitOn_eq_singleton r.path.no_comma,
    List.splitOn_eq_singleton r.status.no_comma]
  rfl

theorem mGet_eq (t : Tools) (cache : List Rec) (p : Path) :
    mGetPhysicalPathStatus t cache p
      = (cache.filter fun r => AwkFinds t p r).map fun r => r.status.chars := by
  unfold mGetPhysicalPathStatus
  exact List.map_congr_left fun r _ => r.field_two

/-- A line for each path that has a status, which no other of the paths finds. -/
structure Holds (t : Tools) (ps : List Path) (s : St) : Prop where
  nodup : (s.cache.map Rec.path).Nodup
  found : ∀ r ∈ s.cache, ∀ q ∈ ps, AwkFinds t q r ↔ r.path = q
  expected : ∀ p status, s.expected p = some status ↔ ⟨p, status⟩ ∈ s.cache

theorem Holds.start : Holds t ps .start where
  nodup := List.nodup_nil
  found := fun _ hr => absurd hr List.not_mem_nil
  expected := fun _ _ => iff_of_false (Option.some_ne_none _ ∘ Eq.symm) List.not_mem_nil

/-- What is printed for a path are the statuses of its own lines. -/
theorem Holds.mGet (h : Holds t ps s) {p : Path} (hp : p ∈ ps) :
    mGetPhysicalPathStatus t s.cache p
      = (s.cache.filter fun r => r.path = p).map fun r => r.status.chars := by
  rw [mGet_eq]
  refine congrArg _ (List.filter_congr fun r hr => ?_)
  rw [decide_eq_decide]
  exact h.found r hr p hp

theorem Holds.get_right (h : Holds t ps s) {p : Path} (hp : p ∈ ps) :
    mGetPhysicalPathStatus t s.cache p = ((s.expected p).map Text.chars).toList := by
  rw [h.mGet hp]
  rcases hexp : s.expected p with _ | status
  · have hnone : s.cache.filter (fun r => r.path = p) = [] := by
      refine List.filter_eq_nil_iff.2 fun r hr hpath => ?_
      have hmem := (h.expected p r.status).2 (by rw [← of_decide_eq_true hpath]; exact hr)
      rw [hexp] at hmem
      cases hmem
    rw [hnone]
    rfl
  · have hmem := (h.expected p status).1 hexp
    have hone := List.filter_key h.nodup hmem
    dsimp only at hone
    rw [hone]
    rfl

/-- `sed` deletes the line of the path. -/
theorem mDel_eq {p : Path} (h : ∀ r ∈ cache, SedFinds t p r ↔ r.path = p) :
    mDelPhysicalPathStatus t cache p = cache.filter fun r => r.path ≠ p := by
  unfold mDelPhysicalPathStatus
  refine List.filter_congr fun r hr => ?_
  rw [decide_eq_decide, h r hr]

theorem Holds.del (h : Holds t ps s) (p : Path) :
    Holds t ps
      { cache := s.cache.filter fun r => r.path ≠ p
        expected := Function.update s.expected p none } where
  nodup := (List.filter_sublist.map Rec.path).nodup h.nodup
  found r hr := h.found r (List.mem_of_mem_filter hr)
  expected q status := by
    rw [List.mem_filter, decide_eq_true_eq]
    dsimp only
    by_cases hq : q = p
    · subst hq
      rw [Function.update_self]
      exact iff_of_false (Option.some_ne_none _ ∘ Eq.symm) fun ⟨_, hne⟩ => hne rfl
    · rw [Function.update_of_ne hq, h.expected]
      exact (and_iff_left hq).symm

/-- A line is appended for a path that has none. -/
theorem Holds.append (h : Holds t ps s) (p : Path) (status : Status)
    (hfree : ∀ r ∈ s.cache, r.path ≠ p) (hfound : ∀ q ∈ ps, AwkFinds t q ⟨p, status⟩ ↔ q = p) :
    Holds t ps
      { cache := s.cache ++ [⟨p, status⟩]
        expected := Function.update s.expected p (some status) } where
  nodup := by
    rw [List.map_append, List.nodup_append']
    refine ⟨h.nodup, List.nodup_singleton p, ?_⟩
    rw [List.map_singleton, List.disjoint_singleton]
    intro hmem
    obtain ⟨r, hr, hpath⟩ := List.mem_map.1 hmem
    exact hfree r hr hpath
  found r hr := by
    rcases List.mem_append.1 hr with hr | hr
    · exact h.found r hr
    · rw [List.mem_singleton.1 hr]
      exact fun q hq => (hfound q hq).trans eq_comm
  expected q status' := by
    rw [List.mem_append, List.mem_singleton, Rec.mk.injEq]
    dsimp only
    by_cases hq : q = p
    · subst hq
      rw [Function.update_self, Option.some.injEq]
      constructor
      · exact fun heq => .inr ⟨rfl, heq.symm⟩
      · rintro (hmem | ⟨-, rfl⟩)
        · exact absurd rfl (hfree _ hmem)
        · rfl
    · rw [Function.update_of_ne hq, h.expected]
      constructor
      · exact .inl
      · rintro (hmem | ⟨hpath, -⟩)
        · exact hmem
        · exact absurd hpath hq

/-- A call that keeps the paths apart keeps the file a map, and the lines of the other paths. -/
theorem step_holds (h : Holds t ps s) {i : Input} (hok : Apart t ps s i)
    (hs : step t s i = some s') :
    Holds t ps s'
      ∧ ∀ q, q ≠ i.path → s'.cache.filter (fun r => r.path = q)
          = s.cache.filter fun r => r.path = q := by
  have hkeep : ∀ p q : Path, q ≠ p →
      (s.cache.filter fun r => r.path ≠ p).filter (fun r => r.path = q)
      = s.cache.filter fun r => r.path = q := by
    intro p q hq
    rw [List.filter_filter]
    refine List.filter_congr fun r _ => ?_
    by_cases hr : r.path = q
    · simp [hr, hq]
    · simp [hr]
  cases i with
  | get p =>
    cases hs
    exact ⟨h, fun _ _ => rfl⟩
  | del p =>
    cases hs
    rw [mDel_eq hok]
    exact ⟨h.del p, hkeep p⟩
  | set p status =>
    cases hs
    unfold mSetPhysicalPathStatus
    rw [mDel_eq hok.1]
    constructor
    · have happ := (h.del p).append p status
        (fun r hr => of_decide_eq_true (List.mem_filter.1 hr).2) hok.2
      dsimp only at happ
      rw [Function.update_idem] at happ
      exact happ
    · intro q hq
      have hne : ¬ p = q := fun heq => hq heq.symm
      rw [List.filter_append, hkeep p q hq]
      simp [hne]

theorem right_of_apart (h : Holds t ps s) {i : Input} (hi : i.path ∈ ps) (hok : Apart t ps s i)
    (hs : step t s i = some s') : Right t ps s i := by
  obtain ⟨h', hlines⟩ := step_holds h hok hs
  have hother : ∀ q ∈ ps, q ≠ i.path →
      mGetPhysicalPathStatus t s'.cache q = mGetPhysicalPathStatus t s.cache q := by
    intro q hq hne
    rw [h'.mGet hq, h.mGet hq, hlines q hne]
  cases i with
  | get p => exact h.get_right hi
  | del p =>
    cases hs
    exact hother
  | set p status =>
    cases hs
    exact hother

/-- In a run whose calls all keep its paths apart, every path gets its status, and no call changes
what another path gets. -/
theorem cache_right (t : Tools) (is : List Input)
    (h : Runs.Meets (step t) (Apart t (is.map Input.path)) .start is) :
    Runs.Meets (step t) (Right t (is.map Input.path)) .start is := by
  refine Runs.meets_of_inv_on (I := Holds t (is.map Input.path))
    (P := fun i => i.path ∈ is.map Input.path) (fun s i s' hI hok hs => (step_holds hI hok hs).1)
    (fun s i hI hi hok => ?_) (fun i hi => List.mem_map_of_mem hi) .start h
  obtain ⟨s', hs⟩ : ∃ s', step t s i = some s' := by cases i <;> exact ⟨_, rfl⟩
  exact right_of_apart hI hi hok hs

section Plain

variable {p q : Path} {r : Rec}

theorem sedFinds_iff (hp : Plain p) : SedFinds t p r ↔ found (.lit agree p.chars) r.line := by
  unfold SedFinds
  rw [t.sed_plain p r.line hp]

/-- The line of a plain path is no comment. -/
theorem awkFinds_iff (hp : Plain p) (hr : Plain r.path) :
    AwkFinds t p r ↔ found (.lit agree p.chars) r.line := by
  unfold AwkFinds
  rw [t.awk_plain p r.line hp]
  refine and_iff_right ?_
  rintro ⟨rest, hrest⟩
  unfold Rec.line at hrest
  rcases hchars : r.path.chars with _ | ⟨c, cs⟩
  · rw [hchars] at hrest
    exact absurd (List.cons.inj hrest).1 (by decide)
  · rw [hchars] at hrest
    have hc : '#' = c := (List.cons.inj hrest).1
    have hmem : '#' ∈ r.path.chars := by rw [hchars, hc]; exact List.mem_cons_self
    exact absurd (hr '#' hmem) (by decide)

theorem found_self (r : Rec) : found (.lit agree r.path.chars) r.line :=
  Regex.found_lit_of_infix agree_self ⟨[], _, rfl⟩

/-- Plain paths are kept apart by a call that finds no line of another path, and adds none that
another path finds. -/
theorem apart_set_of_plain {status : Status} (hp : Plain p) (hps : ∀ q ∈ ps, Plain q)
    (hsed : ∀ r ∈ s.cache, found (.lit agree p.chars) r.line → r.path = p)
    (hawk : ∀ q ∈ ps, found (.lit agree q.chars) (Rec.mk p status).line → q = p) :
    Apart t ps s (.set p status) := by
  refine ⟨fun r hr => ?_, fun q hq => ?_⟩
  · rw [sedFinds_iff hp]
    exact ⟨hsed r hr, fun h => h ▸ found_self r⟩
  · rw [awkFinds_iff (hps q hq) hp]
    exact ⟨hawk q hq, fun h => h ▸ found_self ⟨p, status⟩⟩

end Plain

theorem unescape_escape {chars : List Char} (h : '\\' ∉ chars) :
    (escape chars).filter (· ≠ '\\') = chars := by
  unfold escape
  induction chars with
  | nil => rfl
  | cons c cs ih =>
    have hc : c ≠ '\\' := fun heq => h (heq ▸ List.mem_cons_self)
    rw [List.flatMap_cons, List.filter_append, ih fun hmem => h (List.mem_cons_of_mem c hmem)]
    split_ifs
    · simp [hc]
    · simp [hc]

/-- The tools as they are for plain patterns. -/
def dotTools : Tools where
  sed := fun pattern line => found (.lit agree (pattern.filter (· ≠ '\\'))) line
  awk := fun pattern line => found (.lit agree pattern) line
  sed_plain p line hp := by
    rw [unescape_escape fun h => absurd (hp _ h) (by decide)]
  awk_plain _ _ _ := rfl

theorem plain_no_comma {chars : List Char}
    (h : ∀ c ∈ chars, c.isAlphanum ∨ c ∈ ['/', ':', '.', '-', '_']) : ',' ∉ chars :=
  fun hc => absurd (h _ hc) (by decide)

theorem plain_no_newline {chars : List Char}
    (h : ∀ c ∈ chars, c.isAlphanum ∨ c ∈ ['/', ':', '.', '-', '_']) : '\n' ∉ chars :=
  fun hc => absurd (h _ hc) (by decide)

def plainText (chars : List Char)
    (h : ∀ c ∈ chars, c.isAlphanum ∨ c ∈ ['/', ':', '.', '-', '_']) : Text where
  chars := chars
  no_comma := plain_no_comma h
  no_newline := plain_no_newline h

theorem processed_plain : ∀ c ∈ ['p', 'r', 'o', 'c', 'e', 's', 's', 'e', 'd'],
    c.isAlphanum ∨ c ∈ ['/', ':', '.', '-', '_'] := by
  simp

theorem hub_plain : ∀ c ∈ ['/', '2', '-', '1'],
    c.isAlphanum ∨ c ∈ ['/', ':', '.', '-', '_'] := by
  simp

theorem device_plain : ∀ c ∈ ['/', '2', '-', '1', '/', '2', '-', '1', '.', '4'],
    c.isAlphanum ∨ c ∈ ['/', ':', '.', '-', '_'] := by
  simp

theorem port_plain : ∀ c ∈ ['/', '2', '-', '1', '0'],
    c.isAlphanum ∨ c ∈ ['/', ':', '.', '-', '_'] := by
  simp

def processed : Status := plainText _ processed_plain

/-- `/2-1` -/
def hub : Path := plainText _ hub_plain

/-- `/2-1/2-1.4` -/
def device : Path := plainText _ device_plain

/-- `/2-10` -/
def port : Path := plainText _ port_plain

theorem cache_right_two : Runs.Meets (step dotTools) (Right dotTools [device, port, device, port])
    .start [.set device processed, .set port processed, .del device, .get port] :=
  cache_right dotTools [.set device processed, .set port processed, .del device, .get port]
    (by decide)

/-- The hub has the status of the device below it, and the port loses its status with the hub. -/
theorem cache_wrong :
    ¬ Runs.Meets (step dotTools) (Right dotTools [device, hub]) .start
        [.set device processed, .get hub]
      ∧ ¬ Runs.Meets (step dotTools) (Right dotTools [port, hub, port]) .start
        [.set port processed, .del hub, .get port] := by
  decide

end PathStatus

end BananaWrt
