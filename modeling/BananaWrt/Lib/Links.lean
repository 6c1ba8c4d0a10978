import Mathlib.Data.Fintype.Card
import Mathlib.Data.Set.Finite.Basic
import Mathlib.Logic.Relation

/-!
# Following links

Each place names the next one, or none. From a place on the links are straight if none of the places
that they come to leads back to itself. Among finitely many places, whoever follows straight links
comes to an end (`Straight.induct`), and whoever follows others never does (`exists_link`).
-/

namespace Links

variable {α : Type*} (next : α → Option α)

def Link (a b : α) : Prop := next a = some b

def Reaches : α → α → Prop := Relation.ReflTransGen (Link next)

/-- No place that is reached leads back to itself. -/
def Straight (a : α) : Prop := ∀ b, Reaches next a b → ¬ Relation.TransGen (Link next) b b

variable {next} {a b : α}

theorem Straight.link (h : Straight next a) (hab : Link next a b) : Straight next b :=
  fun c hbc => h c (hbc.head hab)

/-- Links that are not straight go on, and are not straight there either. -/
theorem exists_link (h : ¬ Straight next a) : ∃ b, Link next a b ∧ ¬ Straight next b := by
  unfold Straight at h
  push Not at h
  obtain ⟨c, hac, hcc⟩ := h
  rcases hac.cases_head with rfl | ⟨b, hab, hbc⟩
  · obtain ⟨b, hab, hba⟩ := Relation.TransGen.head'_iff.1 hcc
    exact ⟨b, hab, fun hb => hb a hba hcc⟩
  · exact ⟨b, hab, fun hb => hb c hbc hcc⟩

/-- What holds of a place if it holds of the next one, holds of all places from which on the links
are straight. -/
theorem Straight.induct {P : α → Prop} {S : Set α} (hfin : S.Finite)
    (hS : ∀ a ∈ S, ∀ b, Link next a b → b ∈ S)
    (hP : ∀ a ∈ S, (∀ b, Link next a b → P b) → P a) (ha : a ∈ S) (h : Straight next a) :
    P a := by
  -- the places of `S` from which on the links are straight, each followed by all later ones
  let T := {c : α // c ∈ S ∧ Straight next c}
  have hsub : {c : α | c ∈ S ∧ Straight next c} ⊆ S := fun c hc => hc.1
  have : Finite T := (hfin.subset hsub).to_subtype
  let r : T → T → Prop := fun c d => Relation.TransGen (Link next) d.1 c.1
  have htrans : IsTrans T r := ⟨fun _ _ _ hcd hde => hde.trans hcd⟩
  have hirrefl : Std.Irrefl r := ⟨fun c => c.2.2 c.1 .refl⟩
  have hwf : WellFounded r := Finite.wellFounded_of_trans_of_irrefl r
  suffices ∀ c : T, P c.1 from this ⟨a, ha, h⟩
  intro c
  induction c using hwf.induction with
  | h c ih =>
    refine hP c.1 c.2.1 fun d hcd => ?_
    exact ih ⟨d, hS c.1 c.2.1 d hcd, c.2.2.link hcd⟩ (.single hcd)

end Links
