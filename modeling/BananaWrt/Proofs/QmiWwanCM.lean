import BananaWrt.QmiWwanCM
import BananaWrt.Proofs.QmiMsg
import Mathlib.Data.Bool.AllAny

/-!
# The client ids come back

Initialisation adds the ids that the modem grants to those it has allocated, and deinitialisation
takes out the pairs in the table. So the set is the one before exactly if each id that was granted
is in the table under its own service, and nothing else in the table names an allocated id
(`idsReturned_iff`). The id of the second WDS client is never in the table under WDS.
-/

namespace BananaWrt

namespace QmiWwanCM

open Bytes Tlv Qmi QmiThread QmiRequests

theorem parameter_tlv {v : Bytes} (h : v.length < 2 ^ 16) : parameter (tlv 0x01 v) = v := by
  have hfits : Fits [(0x01, v)] := by
    intro f hf
    cases List.mem_singleton.1 hf
    exact h
  rw [parameter, tlv_eq, decode_encode hfits]
  rfl

variable {m m' : Modem}

theorem served_getClientID {service id : UInt8}
    (h : Calls.Served Serves (qmiWwanGetClientID service) m id m') :
    ∃ o : Outcome, o.Allowed m.ids service ∧ id = clientIdOf service o.reply
      ∧ m' = ⟨m.ids ∪ o.pairs service, m.outcomes ++ [o]⟩ := by
  rcases h with _ | ⟨hs, h⟩
  have hp : parameter (ctlGetClientIdReq service) = [service] := parameter_tlv (by simp)
  rw [Serves, if_pos rfl, hp] at hs
  obtain ⟨o, rfl, hallow, rfl⟩ := hs
  cases h
  exact ⟨o, hallow, rfl, rfl⟩

theorem served_releaseClientID {service id : UInt8} {ret : ℤ}
    (h : Calls.Served Serves (qmiWwanReleaseClientID service id) m ret m') :
    m' = { m with ids := m.ids.erase (service, id) } := by
  rcases h with _ | ⟨hs, h⟩
  have hp : parameter (ctlReleaseClientIdReq service id) = [service, id] :=
    parameter_tlv (by simp)
  rw [Serves, if_neg (by decide), if_pos rfl, hp] at hs
  cases h
  exact hs

theorem served_syncLoop {n : ℕ} {ret ret' : ℤ}
    (h : Calls.Served Serves (syncLoop n ret) m ret' m') : m' = m := by
  induction n generalizing m ret with
  | zero =>
    cases h
    rfl
  | succ n ih =>
    rcases h with _ | ⟨hs, h⟩
    rw [Serves, if_neg (by decide), if_neg (by decide)] at hs
    subst hs
    dsimp only at h
    split at h
    · cases h
      rfl
    · exact ih h

/-- What comes before the client ids leaves them as they are. -/
theorem served_openDevice {p : Profile} {ret : ℤ}
    (h : Calls.Served Serves (openDevice p) m ret m') : m' = m := by
  obtain ⟨ret₁, m₁, h1, h2⟩ := h.bind
  have hm₁ : m₁ = m := by
    split at h1
    · rcases h1 with _ | ⟨hs, h1⟩
      rw [Serves, if_neg (by decide), if_neg (by decide)] at hs
      dsimp only at h1
      split at h1 <;> cases h1 <;> exact hs
    · cases h1
      rfl
  subst hm₁
  split at h2
  · cases h2
    rfl
  · split at h2
    · exact served_syncLoop h2
    · cases h2
      rfl

theorem enableIpv6_readVersion (p : Profile) (b : Bytes) :
    (readVersion p b).enableIpv6 = p.enableIpv6 := by
  unfold readVersion
  induction List.range (u8 b 22) generalizing p with
  | nil => rfl
  | cons n ns ih =>
    rw [List.foldl_cons, ih]
    split_ifs <;> rfl

theorem served_getVersion {p p' : Profile} (h : Calls.Served Serves (getVersion p) m p' m') :
    m' = m ∧ p'.enableIpv6 = p.enableIpv6 := by
  rcases h with _ | ⟨hs, h⟩
  rw [Serves, if_neg (by decide), if_neg (by decide)] at hs
  dsimp only at h
  split at h
  · cases h
    refine ⟨hs, ?_⟩
    split_ifs
    · exact enableIpv6_readVersion p _
    · rfl
  · cases h
    exact ⟨hs, rfl⟩

/-- The outcomes of the requests for the clients' ids, each allowed where it comes. -/
def AllowedAll : Finset (UInt8 × UInt8) → List Client → List Outcome → Prop
  | _, [], [] => True
  | ids, c :: cs, o :: os => o.Allowed ids c.service ∧ AllowedAll (ids ∪ o.pairs c.service) cs os
  | _, _, _ => False

def allocated (ids : Finset (UInt8 × UInt8)) (xs : List (Client × Outcome)) :
    Finset (UInt8 × UInt8) :=
  xs.foldl (fun ids x => ids ∪ x.2.pairs x.1.service) ids

def filled (t : Table) (xs : List (Client × Outcome)) : Table :=
  xs.foldl (fun t x => Function.update t x.1.slot (clientIdOf x.1.service x.2.reply)) t

theorem served_getClientIDs {cs : List Client} {t t' : Table}
    (h : Calls.Served Serves (getClientIDs cs t) m t' m') :
    ∃ os, AllowedAll m.ids cs os ∧ t' = filled t (cs.zip os)
      ∧ m' = ⟨allocated m.ids (cs.zip os), m.outcomes ++ os⟩ := by
  induction cs generalizing m t with
  | nil =>
    cases h
    exact ⟨[], trivial, rfl, by rw [List.append_nil]; rfl⟩
  | cons c cs ih =>
    obtain ⟨id, m₁, h1, h2⟩ := h.bind
    obtain ⟨o, hallow, rfl, rfl⟩ := served_getClientID h1
    obtain ⟨os, hos, rfl, rfl⟩ := ih h2
    exact ⟨o :: os, ⟨hallow, hos⟩, rfl, by rw [List.append_assoc]; rfl⟩

theorem mem_pairs {o : Outcome} {service : UInt8} {x : UInt8 × UInt8} :
    x ∈ o.pairs service ↔ x.1 = service ∧ o.granted = some x.2 := by
  obtain ⟨s, id⟩ := x
  simp [Outcome.pairs, and_comm, eq_comm]

theorem mem_allocated {xs : List (Client × Outcome)} {ids : Finset (UInt8 × UInt8)}
    {x : UInt8 × UInt8} :
    x ∈ allocated ids xs ↔ x ∈ ids ∨ ∃ y ∈ xs, x ∈ y.2.pairs y.1.service := by
  unfold allocated
  induction xs generalizing ids with
  | nil => simp
  | cons y xs ih =>
    rw [List.foldl_cons, ih, Finset.mem_union, or_assoc, List.exists_mem_cons_iff]

theorem filled_of_notMem {xs : List (Client × Outcome)} {t : Table} {i : UInt8}
    (h : ∀ x ∈ xs, x.1.slot ≠ i) : filled t xs i = t i := by
  unfold filled
  induction xs generalizing t with
  | nil => rfl
  | cons x xs ih =>
    rw [List.foldl_cons, ih fun y hy => h y (List.mem_cons_of_mem x hy),
      Function.update_of_ne (h x List.mem_cons_self).symm]

theorem filled_of_mem {xs : List (Client × Outcome)} {t : Table}
    (hnodup : (xs.map fun x => x.1.slot).Nodup) {x : Client × Outcome} (hx : x ∈ xs) :
    filled t xs x.1.slot = clientIdOf x.1.service x.2.reply := by
  induction xs generalizing t with
  | nil => exact absurd hx List.not_mem_nil
  | cons y xs ih =>
    rw [List.map_cons, List.nodup_cons] at hnodup
    rcases List.mem_cons.1 hx with rfl | hx
    · have hrest : ∀ z ∈ xs, z.1.slot ≠ x.1.slot :=
        fun z hz hslot => hnodup.1 (List.mem_map.2 ⟨z, hz, hslot⟩)
      change filled (Function.update t x.1.slot _) xs x.1.slot = _
      rw [filled_of_notMem hrest, Function.update_self]
    · exact ih hnodup.2 hx

/-- Each request finds what was allocated at first, and maybe more. -/
theorem AllowedAll.allowed {ids : Finset (UInt8 × UInt8)} {cs : List Client} {os : List Outcome}
    (h : AllowedAll ids cs os) :
    ∀ x ∈ cs.zip os, ∃ ids', ids ⊆ ids' ∧ x.2.Allowed ids' x.1.service := by
  induction cs generalizing ids os with
  | nil => exact fun x hx => absurd hx List.not_mem_nil
  | cons c cs ih =>
    cases os with
    | nil => exact h.elim
    | cons o os =>
      intro x hx
      rcases List.mem_cons.1 hx with rfl | hx
      · exact ⟨ids, Finset.Subset.refl ids, h.1⟩
      · obtain ⟨ids', hsub, hallowed⟩ := ih h.2 x hx
        exact ⟨ids', Finset.subset_union_left.trans hsub, hallowed⟩

/-- An id that is granted was not allocated before. -/
theorem AllowedAll.fresh {ids : Finset (UInt8 × UInt8)} {cs : List Client} {os : List Outcome}
    (h : AllowedAll ids cs os) :
    ∀ x ∈ cs.zip os, ∀ y ∈ x.2.pairs x.1.service, y ∉ ids := by
  intro x hx y hy hids
  obtain ⟨ids', hsub, hallowed⟩ := h.allowed x hx
  obtain ⟨hservice, hgrant⟩ := mem_pairs.1 hy
  have hfresh := hallowed.fresh y.2 hgrant
  rw [← hservice] at hfresh
  exact hfresh (hsub hids)

/-- No two of the requests are granted the same id of one service. -/
theorem AllowedAll.pairwise {ids : Finset (UInt8 × UInt8)} {cs : List Client} {os : List Outcome}
    (h : AllowedAll ids cs os) :
    (cs.zip os).Pairwise fun x y => ∀ z ∈ x.2.pairs x.1.service, z ∉ y.2.pairs y.1.service := by
  induction cs generalizing ids os with
  | nil => exact .nil
  | cons c cs ih =>
    cases os with
    | nil => exact h.elim
    | cons o os =>
      refine .cons (fun y hy z hz hz' => ?_) (ih h.2)
      exact h.2.fresh y hy z hz' (Finset.mem_union_right _ hz)

theorem AllowedAll.told {ids : Finset (UInt8 × UInt8)} {cs : List Client} {os : List Outcome}
    (h : AllowedAll ids cs os) : ∀ x ∈ cs.zip os, clientIdOf x.1.service x.2.reply ≠ 0 →
      x.2.granted = some (clientIdOf x.1.service x.2.reply) := by
  intro x hx
  obtain ⟨_, -, hallowed⟩ := h.allowed x hx
  exact hallowed.told

theorem AllowedAll.length_eq {ids : Finset (UInt8 × UInt8)} {cs : List Client}
    {os : List Outcome} (h : AllowedAll ids cs os) : os.length = cs.length := by
  induction cs generalizing ids os with
  | nil =>
    cases os with
    | nil => rfl
    | cons o os => exact h.elim
  | cons c cs ih =>
    cases os with
    | nil => exact h.elim
    | cons o os => rw [List.length_cons, List.length_cons, ih h.2]

theorem served_deInitLoop {is : List UInt8} {t t' : Table} (hnodup : is.Nodup)
    (h : Calls.Served Serves (deInitLoop is t) m t' m') :
    (∀ i, t' i = if i ∈ is then 0 else t i) ∧ m'.outcomes = m.outcomes
      ∧ ∀ x, x ∈ m'.ids ↔ x ∈ m.ids ∧ ¬ (x.1 ∈ is ∧ t x.1 ≠ 0 ∧ x.2 = t x.1) := by
  induction is generalizing m t with
  | nil =>
    cases h
    simp
  | cons i is ih =>
    rw [List.nodup_cons] at hnodup
    unfold deInitLoop at h
    split at h
    · rename_i hi
      obtain ⟨_, m₁, h1, h2⟩ := h.bind
      cases served_releaseClientID h1
      obtain ⟨ht, hos, hids⟩ := ih hnodup.2 h2
      refine ⟨fun j => ?_, hos, fun x => ?_⟩
      · rw [ht j]
        by_cases hj : j = i
        · subst hj
          simp
        · simp [hj]
      · rw [hids x]
        obtain ⟨s, id⟩ := x
        by_cases hs : s = i
        · subst hs
          simp [hnodup.1, hi, and_comm]
        · simp [hs]
    · rename_i hi
      have hzero : t i = 0 := not_not.1 hi
      obtain ⟨ht, hos, hids⟩ := ih hnodup.2 h
      refine ⟨fun j => ?_, hos, fun x => ?_⟩
      · rw [ht j]
        by_cases hj : j = i
        · subst hj
          simp [hzero]
        · simp [hj]
      · rw [hids x]
        obtain ⟨s, id⟩ := x
        by_cases hs : s = i
        · subst hs
          simp [hzero]
        · simp [hs]

theorem nodup_slots : slots.Nodup := by
  refine List.Nodup.map_on (fun i hi j hj hij => ?_) List.nodup_range
  have hij' := congrArg UInt8.toNat hij
  simp only [QMUX_TYPE_ALL, List.mem_range] at hi hj
  simp only [UInt8.toNat_ofNat'] at hij'
  omega

/-- The ids of all the clients are asked for, or, after a failure to open the device, of none. -/
theorem served_init {p p' : Profile} {t t' : Table} {ret : ℤ}
    (h : Calls.Served Serves (qmiWwanInit p t) m (ret, p', t') m') :
    ∃ cs os, (cs = [] ∨ cs = clients p.enableIpv6) ∧ AllowedAll m.ids cs os
      ∧ t' = filled t (cs.zip os) ∧ m' = ⟨allocated m.ids (cs.zip os), m.outcomes ++ os⟩ := by
  obtain ⟨ret₁, m₁, h1, h⟩ := h.bind
  cases served_openDevice h1
  split at h
  · cases h
    exact ⟨[], [], .inl rfl, trivial, rfl, by rw [List.append_nil]; rfl⟩
  · obtain ⟨p₁, m₂, h2, h3⟩ := h.bind
    obtain ⟨rfl, hp⟩ := served_getVersion h2
    obtain ⟨t₁, m₃, h4, h5⟩ := h3.bind
    obtain ⟨os, hos, rfl, rfl⟩ := served_getClientIDs h4
    cases h5
    rw [hp] at hos ⊢
    exact ⟨_, os, .inr rfl, hos, rfl, rfl⟩

/-- Each client has an entry of its own, and each service that ids are asked of has a client whose
entry is that of the service. -/
structure Assigned (cs : List Client) : Prop where
  nodup : (cs.map Client.slot).Nodup
  slot : ∀ c ∈ cs, c.slot ∈ slots
  own : ∀ c ∈ cs, ∃ c' ∈ cs, c'.slot = c.service ∧ c'.service = c.service

theorem assigned_clients (enableIpv6 : Bool) : Assigned (clients enableIpv6) := by
  cases enableIpv6 <;> exact ⟨by decide, by decide, by decide⟩

theorem assigned_nil : Assigned [] := ⟨by decide, by decide, by decide⟩

section Returned

variable {ids ids' : Finset (UInt8 × UInt8)} {cs : List Client} {os : List Outcome} {t : Table}

theorem exists_outcome (h : AllowedAll ids cs os) {c : Client} (hc : c ∈ cs) :
    ∃ o, (c, o) ∈ cs.zip os := by
  have hmap : (cs.zip os).map Prod.fst = cs := List.map_fst_zip h.length_eq.ge
  rw [← hmap] at hc
  obtain ⟨⟨c', o⟩, hx, rfl⟩ := List.mem_map.1 hc
  exact ⟨o, hx⟩

theorem filled_slot (ha : Assigned cs) (h : AllowedAll ids cs os) {x : Client × Outcome}
    (hx : x ∈ cs.zip os) : filled t (cs.zip os) x.1.slot = clientIdOf x.1.service x.2.reply := by
  refine filled_of_mem ?_ hx
  have hmap : ((cs.zip os).map Prod.fst).map Client.slot = cs.map Client.slot := by
    rw [List.map_fst_zip h.length_eq.ge]
  rw [List.map_map] at hmap
  exact hmap ▸ ha.nodup

/-- A granted id that is in the table under its service was granted to the client of that entry. -/
theorem returned_of_filled (ha : Assigned cs) (h : AllowedAll ids cs os) {x : Client × Outcome}
    (hx : x ∈ cs.zip os) {id : UInt8} (hid : x.2.granted = some id) (hne : id ≠ 0)
    (ht : filled t (cs.zip os) x.1.service = id) :
    x.1.slot = x.1.service ∧ clientIdOf x.1.service x.2.reply = id := by
  obtain ⟨c, hc, hslot, hservice⟩ := ha.own x.1 (List.of_mem_zip hx).1
  obtain ⟨o, ho⟩ := exists_outcome h hc
  have htold : clientIdOf c.service o.reply = id := by
    rw [← ht, ← hslot]
    exact (filled_slot ha h ho).symm
  have hgrant : o.granted = some id := htold ▸ h.told _ ho (htold ▸ hne)
  have hsame : x = (c, o) := by
    by_contra hdiff
    have : Std.Symm fun x y : Client × Outcome =>
        ∀ z ∈ x.2.pairs x.1.service, z ∉ y.2.pairs y.1.service :=
      ⟨fun _ _ hab z hz hz' => hab z hz' hz⟩
    exact h.pairwise.forall hx ho hdiff (x.1.service, id) (mem_pairs.2 ⟨rfl, hid⟩)
      (mem_pairs.2 ⟨hservice.symm, hgrant⟩)
  subst hsame
  exact ⟨hslot, htold⟩

theorem ids_eq_iff (ha : Assigned cs) (h : AllowedAll ids cs os)
    (hids : ∀ x, x ∈ ids' ↔ x ∈ allocated ids (cs.zip os)
      ∧ ¬ (x.1 ∈ slots ∧ filled t (cs.zip os) x.1 ≠ 0 ∧ x.2 = filled t (cs.zip os) x.1)) :
    ids' = ids ↔ (∀ x ∈ cs.zip os, Returned x.1 x.2) ∧ Unused ids t cs := by
  have hstale : ∀ i, i ∉ cs.map Client.slot → filled t (cs.zip os) i = t i := by
    intro i hi
    refine filled_of_notMem fun x hx hslot => hi ?_
    exact hslot ▸ List.mem_map_of_mem (List.of_mem_zip hx).1
  constructor
  · rintro rfl
    refine ⟨fun x hx id hid => ?_, fun i hi hset hne hmem => ?_⟩
    · have hpair : (x.1.service, id) ∈ x.2.pairs x.1.service := mem_pairs.2 ⟨rfl, hid⟩
      have hback : ¬ ((x.1.service, id) ∈ allocated ids' (cs.zip os) ∧ _) :=
        fun hin => h.fresh x hx _ hpair ((hids _).2 hin)
      obtain ⟨-, hne, hfill⟩ := not_not.1 (not_and.1 hback (mem_allocated.2 (.inr ⟨x, hx, hpair⟩)))
      dsimp only at hne hfill
      rw [← hfill] at hne
      obtain ⟨hslot, htold⟩ := returned_of_filled ha h hx hid hne hfill.symm
      exact ⟨hslot, hne, htold⟩
    · refine ((hids _).1 hmem).2 ⟨hi, ?_, ?_⟩
      · rwa [hstale i hset]
      · exact (hstale i hset).symm
  · rintro ⟨hreturned, hunused⟩
    ext x
    rw [hids x, mem_allocated]
    constructor
    · rintro ⟨hx | ⟨y, hy, hxy⟩, hrel⟩
      · exact hx
      · obtain ⟨hservice, hgrant⟩ := mem_pairs.1 hxy
        obtain ⟨hslot, hne, htold⟩ := hreturned y hy x.2 hgrant
        have hfill : filled t (cs.zip os) x.1 = x.2 := by
          rw [hservice, ← hslot, filled_slot ha h hy, htold]
        refine absurd ⟨?_, hfill ▸ hne, hfill.symm⟩ hrel
        rw [hservice, ← hslot]
        exact ha.slot _ (List.of_mem_zip hy).1
    · refine fun hx => ⟨.inl hx, ?_⟩
      rintro ⟨hslot, hne, hx2⟩
      by_cases hset : x.1 ∈ cs.map Client.slot
      · obtain ⟨c, hc, hcslot⟩ := List.mem_map.1 hset
        obtain ⟨o, ho⟩ := exists_outcome h hc
        have hfill := filled_slot (t := t) ha h ho
        dsimp only at hfill
        rw [hcslot] at hfill
        have hgrant := h.told _ ho (hfill ▸ hne)
        have hown := (hreturned _ ho _ hgrant).1
        refine h.fresh _ ho x (mem_pairs.2 ⟨hcslot.symm.trans hown, ?_⟩) hx
        rw [hx2, hfill]
        exact hgrant
      · rw [hstale _ hset] at hne hx2
        refine hunused x.1 hslot hset hne ?_
        rw [← hx2]
        exact hx

end Returned

/-- After initialisation and deinitialisation the table is all zero and the modem has allocated
what it had before, exactly if no id is granted to the second WDS client, every other id that is
granted is told and not zero, and what initialisation found and left in the table names no
allocated id. -/
theorem idsReturned_iff (p : Profile) (t t' : Table) (ids ids' : Finset (UInt8 × UInt8))
    (os : List Outcome) (ret : ℤ)
    (h : Calls.Served Serves (initDeInit p t) ⟨ids, []⟩ (ret, t') ⟨ids', os⟩) :
    (ids' = ids ∧ ∀ i ∈ slots, t' i = 0) ↔
      (∀ x ∈ (clients p.enableIpv6).zip os, Returned x.1 x.2)
        ∧ Unused ids t ((clients p.enableIpv6).take os.length) := by
  obtain ⟨⟨ret₁, p₁, t₁⟩, m₁, h1, h⟩ := h.bind
  obtain ⟨t₂, m₂, h2, h⟩ := h.bind
  cases h
  obtain ⟨cs, os', hcs, hallow, rfl, rfl⟩ := served_init h1
  obtain ⟨ht, hos, hids⟩ := served_deInitLoop nodup_slots h2
  have hzero : ∀ i ∈ slots, t' i = 0 := fun i hi => (ht i).trans (if_pos hi)
  have hos' : os = os' := hos
  subst hos'
  have hassigned : Assigned cs := by
    rcases hcs with rfl | rfl
    · exact assigned_nil
    · exact assigned_clients _
  have hzip : (clients p.enableIpv6).zip os = cs.zip os := by
    rcases hcs with rfl | rfl
    · rw [List.length_eq_zero_iff.1 hallow.length_eq, List.zip_nil_right, List.zip_nil_right]
    · rfl
  have htake : (clients p.enableIpv6).take os.length = cs := by
    rw [hallow.length_eq]
    rcases hcs with rfl | rfl
    · rfl
    · exact List.take_length
  rw [hzip, htake, ← ids_eq_iff hassigned hallow hids]
  exact and_iff_left hzero

theorem served_getClientIDs_of_allowed {ids : Finset (UInt8 × UInt8)} {cs : List Client}
    {os out : List Outcome} {t : Table} (h : AllowedAll ids cs os) :
    Calls.Served Serves (getClientIDs cs t) ⟨ids, out⟩ (filled t (cs.zip os))
      ⟨allocated ids (cs.zip os), out ++ os⟩ := by
  induction cs generalizing ids os out t with
  | nil =>
    cases os with
    | nil =>
      rw [List.append_nil]
      exact .ret t _
    | cons o os => exact h.elim
  | cons c cs ih =>
    cases os with
    | nil => exact h.elim
    | cons o os =>
      have hp : parameter (ctlGetClientIdReq c.service) = [c.service] := parameter_tlv (by simp)
      have hserves : Serves ⟨ids, out⟩
          (.ctl QMICTL_GET_CLIENT_ID_REQ (ctlGetClientIdReq c.service)) o.reply
          ⟨ids ∪ o.pairs c.service, out ++ [o]⟩ := by
        rw [Serves, if_pos rfl, hp]
        exact ⟨o, rfl, h.1, rfl⟩
      have hout : out ++ o :: os = out ++ [o] ++ os := by rw [List.append_assoc]; rfl
      rw [hout]
      exact .call hserves (ih h.2)

theorem exists_served_deInitLoop (is : List UInt8) (t : Table) (m : Modem) :
    ∃ t' m', Calls.Served Serves (deInitLoop is t) m t' m' := by
  induction is generalizing t m with
  | nil => exact ⟨t, m, .ret t m⟩
  | cons i is ih =>
    unfold deInitLoop
    split_ifs
    · obtain ⟨t', m', h⟩ := ih (Function.update t i 0)
        { m with ids := m.ids.erase ((parameter (ctlReleaseClientIdReq i (t i))).getD 0 0,
          (parameter (ctlReleaseClientIdReq i (t i))).getD 1 0) }
      exact ⟨t', m', .call (r := ⟨0, none⟩) rfl h⟩
    · exact ih t m

/-- A profile with the proxy `"quectel-qmi-proxy0"`, which needs neither to be opened nor
`QMICTL_SYNC_REQ`. -/
def proxied (enableIpv6 : Bool) : Profile :=
  ⟨[0x71, 0x75, 0x65, 0x63, 0x74, 0x65, 0x6C, 0x2D, 0x71, 0x6D, 0x69, 0x2D, 0x70, 0x72, 0x6F, 0x78,
    0x79, 0x30], ascii "/dev/cdc-wdm0", 0, 0, enableIpv6, 0⟩

/-- Every outcome that is allowed is that of a run. -/
theorem exists_served_initDeInit {enableIpv6 : Bool} {ids : Finset (UInt8 × UInt8)}
    {os : List Outcome} {t : Table} (h : AllowedAll ids (clients enableIpv6) os) :
    ∃ t' ids', Calls.Served Serves (initDeInit (proxied enableIpv6) t) ⟨ids, []⟩ (0, t') ⟨ids', os⟩
      ∧ ∀ x, x ∈ ids' ↔ x ∈ allocated ids ((clients enableIpv6).zip os)
        ∧ ¬ (x.1 ∈ slots ∧ filled t ((clients enableIpv6).zip os) x.1 ≠ 0
          ∧ x.2 = filled t ((clients enableIpv6).zip os) x.1) := by
  have hopen : Calls.Served Serves (openDevice (proxied enableIpv6)) ⟨ids, []⟩ 0 ⟨ids, []⟩ := by
    have hret : openDevice (proxied enableIpv6) = .ret 0 := by cases enableIpv6 <;> rfl
    rw [hret]
    exact .ret 0 _
  have hversion : Calls.Served Serves (getVersion (proxied enableIpv6)) ⟨ids, []⟩
      (proxied enableIpv6) ⟨ids, []⟩ := .call (r := ⟨-1, none⟩) rfl (.ret _ _)
  obtain ⟨t', ⟨ids', os'⟩, hdeinit⟩ := exists_served_deInitLoop slots
    (filled t ((clients enableIpv6).zip os)) ⟨allocated ids ((clients enableIpv6).zip os), os⟩
  obtain ⟨-, rfl, hids⟩ := served_deInitLoop nodup_slots hdeinit
  have hinit : Calls.Served Serves (qmiWwanInit (proxied enableIpv6) t) ⟨ids, []⟩
      (0, _, filled t ((clients enableIpv6).zip os'))
      ⟨allocated ids ((clients enableIpv6).zip os'), os'⟩ :=
    hopen.andThen (hversion.andThen ((served_getClientIDs_of_allowed h).andThen (.ret _ _)))
  exact ⟨t', ids', hinit.andThen (hdeinit.andThen (.ret _ _)), hids⟩

/-- The modem grants the id, and its response arrives. -/
def granting (service id : UInt8) : Outcome :=
  ⟨some id, ⟨0, some [0x01, 0x17, 0x00, 0x80, 0x00, 0x00, 0x01, 0x01, 0x22, 0x00, 0x0C, 0x00,
    0x02, 0x04, 0x00, 0x00, 0x00, 0x00, 0x00, 0x01, 0x02, 0x00, service, id]⟩⟩

theorem allowed_granting {ids : Finset (UInt8 × UInt8)} {service id : UInt8}
    (h : (service, id) ∉ ids) : (granting service id).Allowed ids service := by
  refine ⟨fun id' hid => ?_, fun _ => ?_⟩
  · cases hid
    exact h
  · simp [granting, clientIdOf, ctlResult, ctlError, ctlRspPair, u8, le16]

/-- With IPv6 off, and every request granted, the ids come back. -/
theorem idsReturned_ipv4 : ∃ t' os, Calls.Served Serves (initDeInit (proxied false) fun _ => 0)
    ⟨∅, []⟩ (0, t') ⟨∅, os⟩ ∧ os.map Outcome.granted = List.replicate 5 (some 1) := by
  have hallow : AllowedAll ∅ (clients false)
      [granting 1 1, granting 2 1, granting 3 1, granting 0x0B 1, granting 0x1A 1] := by
    refine ⟨allowed_granting ?_, allowed_granting ?_, allowed_granting ?_, allowed_granting ?_,
      allowed_granting ?_, trivial⟩ <;> decide
  obtain ⟨t', ids', h, -⟩ := exists_served_initDeInit (t := fun _ => 0) hallow
  have hback := (idsReturned_iff _ _ _ _ _ _ _ h).2
    ⟨List.all_iff_forall_prop.1 (by decide), fun _ _ _ hne => absurd rfl hne⟩
  rw [hback.1] at h
  exact ⟨t', _, h, rfl⟩

/-- With IPv6 on, and every request granted, the id of the second WDS client stays allocated. -/
theorem not_idsReturned_ipv6 : ∃ t' ids' os,
    Calls.Served Serves (initDeInit (proxied true) fun _ => 0) ⟨∅, []⟩ (0, t') ⟨ids', os⟩
      ∧ os.map Outcome.granted = [some 1, some 2, some 1, some 1, some 1, some 1]
      ∧ ids' ≠ ∅ := by
  have hallow : AllowedAll ∅ (clients true)
      [granting 1 1, granting 1 2, granting 2 1, granting 3 1, granting 0x0B 1,
        granting 0x1A 1] := by
    refine ⟨allowed_granting ?_, allowed_granting ?_, allowed_granting ?_, allowed_granting ?_,
      allowed_granting ?_, allowed_granting ?_, trivial⟩ <;> decide
  obtain ⟨t', ids', h, hids⟩ := exists_served_initDeInit (t := fun _ => 0) hallow
  have hleft : (1, 2) ∈ ids' := (hids _).2 ⟨by decide, by decide⟩
  exact ⟨t', ids', _, h, rfl, Finset.ne_empty_of_mem hleft⟩

end QmiWwanCM

end BananaWrt
