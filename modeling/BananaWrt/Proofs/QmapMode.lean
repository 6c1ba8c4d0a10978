import BananaWrt.QmapMode
import BananaWrt.Proofs.ResolvConf

/-!
# Which interface is chosen

What `-m` and `-n` leave in the profile is what their last arguments say, since no argument of an
option begins as an option does. The index that each of the three ways of detection uses is worked
out from that, and so is what it finds there.
-/

namespace BananaWrt

namespace QmapMode

open AtChannel (Line)
open ResolvConf (decimal)

section Parse

open UserInput

/-- Some arguments are taken, and the two fields are left alone. -/
structure Passes (r r' : Input × List Bytes) : Prop where
  args : ∃ taken, r.2 = taken ++ r'.2 ∧ ∀ word ∈ taken, word.headD 0 ≠ ch '-'
  muxid : r'.1.muxid = r.1.muxid
  pdp : r'.1.pdp = r.1.pdp

theorem Passes.refl (r : Input × List Bytes) : Passes r r := ⟨⟨[], rfl, by simp⟩, rfl, rfl⟩

theorem Passes.trans {r r' r'' : Input × List Bytes} (h : Passes r r') (h' : Passes r' r'') :
    Passes r r'' := by
  obtain ⟨taken, heq, htaken⟩ := h.args
  obtain ⟨taken', heq', htaken'⟩ := h'.args
  refine ⟨⟨taken ++ taken', by rw [heq, heq', List.append_assoc], fun word hw => ?_⟩,
    h'.muxid.trans h.muxid, h'.pdp.trans h.pdp⟩
  exact (List.mem_append.1 hw).elim (htaken word) (htaken' word)

theorem takeArg_eq_some {args rest : List Bytes} {arg : Bytes}
    (h : takeArg args = some (arg, rest)) : args = arg :: rest ∧ arg.headD 0 ≠ ch '-' := by
  rcases args with _ | ⟨word, words⟩
  · cases h
  · rw [takeArg] at h
    split_ifs at h with hdash
    cases h
    exact ⟨rfl, hdash⟩

theorem taken_of_takeArg {args rest : List Bytes} {arg : Bytes}
    (h : takeArg args = some (arg, rest)) :
    ∃ taken, args = taken ++ rest ∧ ∀ word ∈ taken, word.headD 0 ≠ ch '-' := by
  obtain ⟨rfl, hdash⟩ := takeArg_eq_some h
  exact ⟨[arg], rfl, by simpa using hdash⟩

theorem passes_withArg (set : Bytes → Input → Input) (r : Input × List Bytes)
    (hset : ∀ arg p, (set arg p).muxid = p.muxid ∧ (set arg p).pdp = p.pdp) :
    Passes r (withArg set r) := by
  unfold withArg
  rcases h : takeArg r.2 with _ | ⟨arg, rest⟩
  · exact Passes.refl r
  · exact ⟨taken_of_takeArg h, (hset arg r.1).1, (hset arg r.1).2⟩

theorem passes_optionS {r r' : Input × List Bytes} (h : optionS r = some r') : Passes r r' := by
  unfold optionS at h
  dsimp only at h
  set start : Input × List Bytes :=
    ({ r.1 with apn := some [], user := some [], password := some [] }, r.2)
  set strings := withArg _ (withArg _ (withArg _ start)) with hstrings
  have hpass : Passes r strings := by
    have hstart : Passes r start := ⟨⟨[], rfl, by simp⟩, rfl, rfl⟩
    refine ((hstart.trans (passes_withArg _ _ ?_)).trans (passes_withArg _ _ ?_)).trans
      (passes_withArg _ _ ?_) <;> exact fun _ _ => ⟨rfl, rfl⟩
  rcases htake : takeArg strings.2 with _ | ⟨auth, rest⟩
  · rw [htake] at h
    exact Option.some.inj h ▸ hpass
  · rw [htake] at h
    obtain ⟨a, -, rfl⟩ := Option.map_eq_some_iff.1 h
    exact hpass.trans ⟨taken_of_takeArg htake, rfl, rfl⟩

theorem passes_optionP {r r' : Input × List Bytes} (h : optionP r = some r') : Passes r r' := by
  unfold optionP at h
  rcases htake : takeArg r.2 with _ | ⟨arg, rest⟩
  · rw [htake] at h
    cases h
    exact Passes.refl r
  · rw [htake] at h
    dsimp only at h
    split_ifs at h <;> cases h <;> exact ⟨taken_of_takeArg htake, rfl, rfl⟩

/-- Whatever is left of an option's body passes. -/
def Leads (r : Input × List Bytes) (o : Option (Input × List Bytes)) : Prop :=
  ∀ r', o = some r' → Passes r r'

theorem leads_ite {r : Input × List Bytes} {c : Prop} [Decidable c]
    {o o' : Option (Input × List Bytes)} (h : Leads r o) (h' : Leads r o') :
    Leads r (if c then o else o') := by
  split_ifs
  · exact h
  · exact h'

theorem leads_option {letter : UInt8} {r : Input × List Bytes} (hm : letter ≠ ch 'm')
    (hn : letter ≠ ch 'n') : Leads r (option letter r) := by
  have hsame : ∀ {p : Input}, p.muxid = r.1.muxid → p.pdp = r.1.pdp → Leads r (some (p, r.2)) :=
    fun hmux hpdp _ h => by
      cases h
      exact ⟨⟨[], rfl, by simp⟩, hmux, hpdp⟩
  have harg : ∀ {set : Bytes → Input → Input},
      (∀ arg p, (set arg p).muxid = p.muxid ∧ (set arg p).pdp = p.pdp) →
      Leads r (some (withArg set r)) := fun hset _ h => by
    cases h
    exact passes_withArg _ r hset
  unfold option
  rw [if_neg hm, if_neg hn]
  refine leads_ite (fun _ => passes_optionS) (leads_ite (fun _ => passes_optionP) ?_)
  refine leads_ite (harg fun _ _ => ⟨rfl, rfl⟩) (leads_ite (harg fun _ _ => ⟨rfl, rfl⟩) ?_)
  refine leads_ite (hsame rfl rfl) (leads_ite (harg fun _ _ => ⟨rfl, rfl⟩) ?_)
  refine leads_ite (hsame rfl rfl) (leads_ite (hsame rfl rfl) ?_)
  refine leads_ite (harg fun _ _ => ⟨rfl, rfl⟩) (leads_ite (hsame rfl rfl) ?_)
  exact leads_ite (harg fun _ _ => ⟨rfl, rfl⟩) fun _ h => by cases h

/-- The argument that is taken, if there is one. -/
def argHere (letter : Char) (l : UInt8) (args : List Bytes) : Option Bytes :=
  if l = ch letter then (takeArg args).map Prod.fst else none

theorem option_spec {letter : UInt8} {r r' : Input × List Bytes} (h : option letter r = some r') :
    (∃ taken, r.2 = taken ++ r'.2 ∧ ∀ word ∈ taken, word.headD 0 ≠ ch '-')
    ∧ r'.1.muxid = ((argHere 'm' letter r.2).map (digit · + 0x80)).getD r.1.muxid
    ∧ r'.1.pdp = ((argHere 'n' letter r.2).map digit).getD r.1.pdp := by
  unfold argHere
  by_cases hm : letter = ch 'm'
  · subst hm
    have heq : option (ch 'm') r
        = some (withArg (fun arg p => { p with muxid := digit arg + 0x80 }) r) := rfl
    rw [heq] at h
    cases h
    rw [if_pos rfl, if_neg (by decide)]
    unfold withArg
    rcases htake : takeArg r.2 with _ | ⟨arg, rest⟩
    · exact ⟨⟨[], rfl, by simp⟩, rfl, rfl⟩
    · exact ⟨taken_of_takeArg htake, rfl, rfl⟩
  by_cases hn : letter = ch 'n'
  · subst hn
    have heq : option (ch 'n') r = some (withArg (fun arg p => { p with pdp := digit arg }) r) :=
        rfl
    rw [heq] at h
    cases h
    rw [if_pos rfl, if_neg (by decide)]
    unfold withArg
    rcases htake : takeArg r.2 with _ | ⟨arg, rest⟩
    · exact ⟨⟨[], rfl, by simp⟩, rfl, rfl⟩
    · exact ⟨taken_of_takeArg htake, rfl, rfl⟩
  have hpass := leads_option hm hn r' h
  rw [if_neg hm, if_neg hn]
  exact ⟨hpass.args, hpass.muxid, hpass.pdp⟩

theorem argOf_append (letter : Char) {words : List Bytes} : ∀ {taken : List Bytes},
    (∀ word ∈ taken, word.headD 0 ≠ ch '-') → argOf letter (taken ++ words) = argOf letter words
  | [], _ => rfl
  | word :: taken, h => by
    rw [List.forall_mem_cons] at h
    rw [List.cons_append, argOf, argOf_append letter h.2, if_neg fun hw => h.1 hw.1, Option.or_none]

/-- An option that comes later overrides one that came before. -/
theorem parseLoop_spec : ∀ (fuel : ℕ) {p q : Input} {args : List Bytes},
    parseLoop fuel (p, args) = some q →
      q.muxid = ((argOf 'm' args).map (digit · + 0x80)).getD p.muxid
      ∧ q.pdp = ((argOf 'n' args).map digit).getD p.pdp
  | fuel, p, q, [], h => by
    have hp : parseLoop fuel (p, []) = some p := by cases fuel <;> rfl
    rw [hp] at h
    cases h
    exact ⟨rfl, rfl⟩
  | 0, _, _, _ :: _, h => by simp [parseLoop] at h
  | fuel + 1, p, q, arg :: args, h => by
    rw [parseLoop] at h
    split_ifs at h with hdash
    obtain ⟨⟨p', args'⟩, hopt, h⟩ := Option.bind_eq_some_iff.1 h
    obtain ⟨⟨taken, hargs, htaken⟩, hmux, hpdp⟩ := option_spec hopt
    obtain ⟨ihm, ihn⟩ := parseLoop_spec fuel h
    have hargs : args = taken ++ args' := hargs
    have hhere : ∀ letter, (if arg.headD 0 = ch '-' ∧ arg.getD 1 0 = ch letter then
        (takeArg args).map Prod.fst else none) = argHere letter (arg.getD 1 0) args :=
        fun letter => by
      unfold argHere
      simp only [hdash, true_and]
    have hover : ∀ letter, argOf letter (arg :: args)
        = (argOf letter args').or (argHere letter (arg.getD 1 0) args) := fun letter => by
      have hrest : argOf letter args = argOf letter args' := by
        rw [hargs, argOf_append letter htaken]
      rw [argOf, hhere, hrest]
    rw [ihm, ihn, hmux, hpdp, hover, hover]
    constructor
    · rcases argOf 'm' args' <;> rfl
    · rcases argOf 'n' args' <;> rfl

/-- What the profile has is what the command line selects. -/
theorem parse_selects {argv : List Bytes} {p : Input} (h : parseUserInput argv = some p) :
    p.pdp = selectedPdn argv + 1
    ∧ ((p.muxid = 0 ∧ argOf 'm' (words argv) = none ∧ selected argv = selectedPdn argv)
      ∨ (p.muxid ≠ 0 ∧ argOf 'm' (words argv) ≠ none ∧ p.muxid = selected argv + 0x81)) := by
  unfold parseUserInput at h
  obtain ⟨q, hq, rfl⟩ := Option.map_eq_some_iff.1 h
  obtain ⟨hmux, hpdp⟩ := parseLoop_spec _ hq
  have hwords : words argv
      = (if argv.getLast? = some (QmiRequests.ascii "&") then argv.dropLast else argv).tail := rfl
  rw [← hwords] at hmux hpdp
  have hpdp' : q.pdp = selectedPdn argv + 1 := by
    have hsel : selectedPdn argv = q.pdp - 1 := by
      rw [hpdp]
      rfl
    omega
  have hmux' : (q.muxid = 0 ∧ argOf 'm' (words argv) = none ∧ selected argv = selectedPdn argv)
      ∨ (q.muxid ≠ 0 ∧ argOf 'm' (words argv) ≠ none ∧ q.muxid = selected argv + 0x81) := by
    unfold selected
    rcases hm : argOf 'm' (words argv) with _ | arg <;> rw [hm] at hmux
    · exact Or.inl ⟨hmux, rfl, rfl⟩
    · have hdigit : digit arg = (arg.headD 0).toNat - 48 := rfl
      have hmux : q.muxid = digit arg + 0x80 := hmux
      refine Or.inr ⟨by omega, Option.some_ne_none arg, ?_⟩
      dsimp only
      omega
  split_ifs <;> exact ⟨hpdp', hmux'⟩

end Parse

section Reads

variable {mode k : ℤ} {P : Profile → Prop}

theorem entry_of_index (info : RmnetInfo) (i : Fin 8) :
    info.entry i = some (info.ifname i, info.muxId i) := by
  have hi : 0 ≤ (i : ℤ) ∧ (i : ℤ) < 8 := ⟨by omega, by omega⟩
  rw [RmnetInfo.entry, dif_pos hi]
  rfl

/-- The driver's entry that is read is the one that is chosen. -/
theorem chooses_entry (info : RmnetInfo) {f : Line × UInt8 → Profile} (hmode : mode ≤ 8)
    (hf : ∀ e, (f e).qmapMode = mode)
    (hP : ∀ i : Fin 8, (i : ℤ) = k → P (f (info.ifname i, info.muxId i))) :
    Chooses ((info.entry k).map fun e => ⟨f e, [.entry k]⟩) mode k P := by
  intro hlow hhigh
  have hk : ((⟨k.toNat, by omega⟩ : Fin 8) : ℤ) = k := Int.toNat_of_nonneg hlow
  have hi := entry_of_index info ⟨k.toNat, by omega⟩
  rw [hk] at hi
  rw [hi]
  refine ⟨⟨_, rfl, fun read hread => ?_⟩, fun d hd => ?_⟩
  · rw [List.mem_singleton.1 hread, hf]
    exact ⟨hlow, hhigh⟩
  · cases hd
    exact ⟨hf _, hP _ hk⟩

/-- The line of `add_mux` that is read is the one that is chosen. -/
theorem chooses_line {buf : Line} {f : ℤ → Profile} (hmode : mode ≤ 25)
    (hf : ∀ id, (f id).qmapMode = mode)
    (hP : ∀ id, k < mode → muxidAt buf k = some id → P (f id)) :
    Chooses ((muxidAt buf k).map fun id => ⟨f id, readsAt k⟩) mode k P := by
  intro hlow hhigh
  obtain ⟨id, hid⟩ : ∃ id, muxidAt buf k = some id := by
    unfold muxidAt byteAt
    rw [if_pos (by omega), if_pos (by omega)]
    exact ⟨_, rfl⟩
  rw [hid]
  refine ⟨⟨_, rfl, fun read hread => ?_⟩, fun d hd => ?_⟩
  · rw [hf]
    rcases List.mem_cons.1 hread with rfl | hread
    · exact ⟨by omega, by omega⟩
    · rw [List.mem_singleton.1 hread]
      exact ⟨by omega, by omega⟩
  · cases hd
    exact ⟨hf id, hP id hhigh hid⟩

theorem out_keeps (sys : Sys) (q : Profile) : (out sys q).qmapMode = q.qmapMode
    ∧ (out sys q).muxid = q.muxid ∧ (out sys q).qmapnetAdapter = q.qmapnetAdapter := by
  unfold out
  split_ifs <;> exact ⟨rfl, rfl, rfl⟩

theorem Chooses.out (sys : Sys) {r : Option Detected} (h : Chooses r mode k P)
    (hP : ∀ q, P q → P (QmapMode.out sys q)) :
    Chooses (r.map fun d => { d with profile := QmapMode.out sys d.profile }) mode k P := by
  intro hlow hhigh
  obtain ⟨⟨d, rfl, hreads⟩, hchosen⟩ := h hlow hhigh
  have hmode := (out_keeps sys d.profile).1
  refine ⟨⟨_, rfl, fun read hread => ?_⟩, fun d' hd' => ?_⟩
  · rw [hmode]
    exact hreads read hread
  · cases hd'
    obtain ⟨hd, hp⟩ := hchosen d rfl
    exact ⟨hmode.trans hd, hP _ hp⟩

end Reads

section AddMux

theorem length_addMux : ∀ ids : List UInt8, (addMux ids).length = 5 * ids.length
  | [] => rfl
  | id :: ids => by
    have ih := length_addMux ids
    have hcons : addMux (id :: ids) = muxLine id ++ addMux ids := rfl
    have hline : (muxLine id).length = 5 := rfl
    rw [hcons, List.length_append, ih, hline, List.length_cons]
    omega

theorem drop_addMux : ∀ (k : ℕ) (ids : List UInt8),
    (addMux ids).drop (5 * k) = addMux (ids.drop k)
  | 0, _ => rfl
  | k + 1, [] => by simp [addMux]
  | k + 1, id :: ids => by
    have hcons : addMux (id :: ids) = muxLine id ++ addMux ids := rfl
    have hfive : 5 * (k + 1) = (muxLine id).length + 5 * k := by
      have hline : (muxLine id).length = 5 := rfl
      omega
    rw [hcons, hfive, ← List.drop_drop, List.drop_left, List.drop_succ_cons, drop_addMux k ids]

/-- The value of a digit as the code works it out. -/
theorem digitChar_value : ∀ d < 16,
    (Nat.digitChar d).toNat = if d < 10 then d + 48 else d + 87 := by decide

theorem muxidAt_addMux {ids : List UInt8} {k : ℕ} (hk : k < ids.length) (hbuf : k < 25) :
    muxidAt ((addMux ids).take 128) k
      = some ((((Nat.digitChar (ids[k].toNat / 16)).toNat : ℤ) - '0'.toNat) * 16
        + ((Nat.digitChar (ids[k].toNat % 16)).toNat - '0'.toNat)) := by
  have hdrop : (addMux ids).drop (5 * k) = muxLine ids[k] ++ addMux (ids.drop (k + 1)) := by
    rw [drop_addMux, List.drop_eq_getElem_cons hk]
    rfl
  have hbyte : ∀ j < 5, byteAt ((addMux ids).take 128) (5 * k + (j : ℕ))
      = some (((muxLine ids[k] ++ addMux (ids.drop (k + 1))).getD j '\x00').toNat : ℤ) :=
      fun j hj => by
    have hnat : (5 * (k : ℤ) + (j : ℕ)).toNat = 5 * k + j := by omega
    rw [byteAt, if_pos ⟨by omega, by omega⟩, hnat, ← hdrop, List.getD_eq_getElem?_getD,
      List.getD_eq_getElem?_getD, List.getElem?_take_of_lt (by omega), List.getElem?_drop]
  have h2 := hbyte 2 (by decide)
  have h3 := hbyte 3 (by decide)
  unfold muxidAt
  push_cast at h2 h3
  rw [h2, h3]
  rfl

/-- The id is read as it is written exactly if both of its digits are decimal. -/
theorem muxidAt_addMux_iff {ids : List UInt8} {k : ℕ} (hk : k < ids.length) (hbuf : k < 25) :
    muxidAt ((addMux ids).take 128) k = some (ids[k].toNat : ℤ) ↔ Decimal ids[k] := by
  have hlt := ids[k].toNat_lt
  have hhigh := digitChar_value (ids[k].toNat / 16) (by omega)
  have hlow := digitChar_value (ids[k].toNat % 16) (by omega)
  have hzero : '0'.toNat = 48 := rfl
  rw [muxidAt_addMux hk hbuf, hhigh, hlow, hzero, Option.some.injEq]
  unfold Decimal
  split_ifs <;> omega

theorem length_addMux_div (ids : List UInt8) :
    ((addMux ids).take 128).length / 5 = min ids.length 25 := by
  rw [List.length_take, length_addMux]
  omega

end AddMux

section Detect

variable {argv : List Bytes} {p : UserInput.Input} {sys : Sys} {profile : Profile}

theorem filter_size {info : RmnetInfo} (h : sys.rmnetInfo = some info) (hsize : info.size ≠ 0) :
    (sys.rmnetInfo.filter fun info => info.size ≠ 0) = some info := by
  rw [h, Option.filter_some, if_pos (by simpa using hsize)]

theorem filter_none (h : sys.NoInfo) :
    (sys.rmnetInfo.filter fun info => info.size ≠ 0) = none := by
  rcases hinfo : sys.rmnetInfo with _ | info
  · rfl
  · rw [Option.filter_some, if_neg (by simpa using h info hinfo)]

/-- The index that two of the ways work out. -/
theorem offset_eq (hparse : UserInput.parseUserInput argv = some p) (hpdp : profile.pdp = p.pdp)
    (hmuxid : profile.muxid = p.muxid) :
    (if profile.muxid = 0 then profile.pdp - 1 else profile.muxid - 0x81) = selected argv := by
  obtain ⟨hn, ⟨hm, -, hsel⟩ | ⟨hm, -, hsel⟩⟩ := parse_selects hparse
  · rw [hmuxid, if_pos hm, hpdp, hsel]
    omega
  · rw [hmuxid, if_neg hm, hsel]
    omega

theorem choice_natCast (m : ℕ) (k : ℤ) : choice m k = if m = 1 then 0 else k := by
  unfold choice
  split_ifs <;> first | rfl | omega

theorem chooses_fromRmnetInfo (profile : Profile) (info : RmnetInfo) {k : ℤ}
    (hk : (if profile.muxid = 0 then profile.pdp - 1 else profile.muxid - 0x81) = k)
    (hpos : 1 ≤ info.qmapMode) (hmode : info.qmapMode ≤ 8) :
    Chooses (fromRmnetInfo profile info) info.qmapMode (choice info.qmapMode k) fun q =>
      ∀ i : Fin 8, (i : ℤ) = choice info.qmapMode k →
        q.muxid = (info.muxId i).toNat ∧ q.qmapnetAdapter = info.ifname i := by
  unfold fromRmnetInfo
  rw [if_neg (by omega), choice_natCast]
  dsimp only
  rw [hk]
  refine chooses_entry info (by omega) (fun _ => rfl) fun i hi j hj => ?_
  obtain rfl : i = j := Fin.ext (by omega)
  exact ⟨rfl, rfl⟩

theorem fromQmapMode_spec (profile : Profile) {content : Line} {k : ℤ} (hne : content ≠ [])
    (hk : (if profile.muxid = 0 then profile.pdp - 1 else profile.muxid - 0x81) = k) :
    (fromQmapMode profile content).qmapMode = atoi content
    ∧ (1 < atoi content → (fromQmapMode profile content).muxid = k + 0x81
      ∧ (fromQmapMode profile content).qmapnetAdapter
        = profile.usbnetAdapter.take 16 ++ '.' :: decimal (k + 1))
    ∧ (atoi content = 1 → (fromQmapMode profile content).muxid = 0x81
      ∧ (fromQmapMode profile content).qmapnetAdapter = profile.usbnetAdapter) := by
  have hmuxid : (if profile.muxid = 0 then profile.pdp + 0x80 else profile.muxid) = k + 0x81 := by
    rw [← hk]
    split_ifs <;> omega
  unfold fromQmapMode
  rw [if_neg hne]
  dsimp only
  rw [hmuxid]
  split_ifs with hmany hone
  · have hname : k + 0x81 - 0x80 = k + 1 := by omega
    rw [hname]
    exact ⟨rfl, fun _ => ⟨rfl, rfl⟩, fun h => by omega⟩
  · exact ⟨rfl, fun h => absurd h hmany, fun _ => ⟨rfl, rfl⟩⟩
  · exact ⟨rfl, fun h => absurd h hmany, fun h => absurd h hone⟩

/-- What is read of a line of `add_mux`, if its digits are decimal. -/
theorem muxid_of_decimal {ids : List UInt8} {i id : ℤ} (hi : i < (min ids.length 25 : ℕ))
    (hid : muxidAt ((addMux ids).take 128) i = some id) (j : ℕ) (hj : j < ids.length)
    (hji : (j : ℤ) = i) (hdec : Decimal ids[j]) : id = ids[j].toNat := by
  subst hji
  rw [(muxidAt_addMux_iff hj (by omega)).2 hdec] at hid
  exact (Option.some.inj hid).symm

theorem chooses_fromAddMux (profile : Profile) {ids : List UInt8} {k : ℤ} (hne : ids ≠ [])
    (hk : (if profile.muxid = 0 then profile.pdp - 1 else profile.muxid - 0x81) = k) :
    Chooses (fromAddMux profile ((addMux ids).take 128)) (min ids.length 25 : ℕ)
      (choice (min ids.length 25 : ℕ) k) fun q =>
        (∀ (j : ℕ) (hj : j < ids.length), (j : ℤ) = choice (min ids.length 25 : ℕ) k →
          Decimal ids[j] → q.muxid = ids[j].toNat)
        ∧ (ids.length = 1 ∨ profile.muxid = 0 →
          q.qmapnetAdapter = qmimux (choice (min ids.length 25 : ℕ) k)) := by
  have hpos := List.length_pos_iff.2 hne
  have hlen : ¬ ((addMux ids).take 128).length < 5 := by
    rw [List.length_take, length_addMux]
    omega
  have h25 : ((min ids.length 25 : ℕ) : ℤ) ≤ 25 := by omega
  unfold fromAddMux
  rw [if_neg hlen]
  dsimp only
  rw [length_addMux_div, choice_natCast]
  by_cases hmany : 1 < ((min ids.length 25 : ℕ) : ℤ)
  · have hone : ¬ min ids.length 25 = 1 := by omega
    rw [if_pos hmany, if_neg hone]
    by_cases hm : profile.muxid = 0
    · rw [if_pos hm] at hk ⊢
      subst hk
      exact chooses_line h25 (fun _ => rfl) fun id hlt hid =>
        ⟨muxid_of_decimal hlt hid, fun _ => rfl⟩
    · rw [if_neg hm] at hk ⊢
      subst hk
      refine chooses_line h25 (fun _ => rfl) fun id hlt hid =>
        ⟨muxid_of_decimal hlt hid, fun h => ?_⟩
      rcases h with h | h
      · omega
      · exact absurd h hm
  · have hone : min ids.length 25 = 1 := by omega
    rw [if_neg hmany, if_pos hone]
    exact chooses_line h25 (fun _ => rfl) fun id hlt hid =>
      ⟨muxid_of_decimal hlt hid, fun _ => rfl⟩

theorem selects_of_parse (hparse : UserInput.parseUserInput argv = some p)
    (hpdp : profile.pdp = p.pdp) (hmuxid : profile.muxid = p.muxid) :
    Selects argv sys profile where
  off info hinfo hsize hmode := by
    have hfrom : ∀ q : Profile, fromRmnetInfo q info = some ⟨{ q with qmapMode := 0 }, []⟩ :=
        fun q => by
      simp [fromRmnetInfo, hmode]
    constructor
    · unfold qlQmiQmapModeDetect detectQmi
      rw [filter_size hinfo hsize]
      dsimp only
      rw [hfrom]
      exact ⟨_, rfl, rfl, rfl⟩
    · unfold qlMbimMhiQmapModeDetect
      rw [filter_size hinfo hsize]
      dsimp only
      rw [if_pos hmode]
      exact ⟨_, rfl, rfl, rfl⟩
  qmi info hinfo hsize hpos hmode := by
    unfold qlQmiQmapModeDetect detectQmi
    rw [filter_size hinfo hsize]
    have h := chooses_fromRmnetInfo { profile with driverName := sys.driver.take 31 } info
      (offset_eq hparse hpdp hmuxid) hpos hmode
    refine h.out sys fun q hq i hi => ?_
    rw [(out_keeps sys q).2.1, (out_keeps sys q).2.2]
    exact hq i hi
  mbim info hinfo hsize hpos hmode := by
    unfold qlMbimMhiQmapModeDetect
    rw [filter_size hinfo hsize]
    have hsel : profile.pdp - 1 = selectedPdn argv := by
      have := (parse_selects hparse).1
      omega
    dsimp only
    rw [if_neg (by omega), choice_natCast, hsel]
    refine chooses_entry info (by omega) (fun _ => rfl) fun i hi => ⟨by dsimp only; omega,
      fun j hj => ?_⟩
    obtain rfl : i = j := Fin.ext (by omega)
    rfl
  counted content hnone hprobe hne := by
    have hne' : content.take 128 ≠ [] := by simpa using hne
    obtain ⟨hmode, hmany, hone⟩ := fromQmapMode_spec
      { profile with driverName := sys.driver.take 31 } hne' (offset_eq hparse hpdp hmuxid)
    unfold qlQmiQmapModeDetect detectQmi
    rw [filter_none hnone]
    have hprobe : probe sys (qmapModePaths { profile with driverName := sys.driver.take 31 })
        = .present content := hprobe
    dsimp only
    rw [hprobe]
    refine ⟨_, rfl, ?_⟩
    rw [(out_keeps sys _).1, (out_keeps sys _).2.1, (out_keeps sys _).2.2, hmode]
    exact ⟨rfl, hmany, hone⟩
  listed ids hnone hprobe hqmi hmux hfile hne := by
    have hunset : profile.muxid = 0 ↔ argOf 'm' (words argv) = none := by
      rw [hmuxid]
      obtain ⟨-, ⟨hm, harg, -⟩ | ⟨hm, harg, -⟩⟩ := parse_selects hparse
      · exact iff_of_true hm harg
      · exact iff_of_false hm harg
    have hread : qlFread sys (sysNet profile.usbnetAdapter "/qmi/add_mux".toList) 128
        = (addMux ids).take 128 := by
      rw [qlFread, hfile]
    have hprobe : probe sys (qmapModePaths { profile with driverName := sys.driver.take 31 })
        = .missing := hprobe
    unfold qlQmiQmapModeDetect detectQmi
    rw [filter_none hnone]
    dsimp only
    rw [hprobe]
    dsimp only
    rw [if_pos ⟨hqmi, hmux⟩, hread]
    have h := chooses_fromAddMux { profile with driverName := sys.driver.take 31 } hne
      (offset_eq hparse hpdp hmuxid)
    rw [← hunset]
    refine h.out sys fun q hq => ?_
    rw [(out_keeps sys q).2.1, (out_keeps sys q).2.2]
    exact hq
  unlisted hnone hprobe hmux := by
    have hprobe : probe sys (qmapModePaths { profile with driverName := sys.driver.take 31 })
        = .missing := hprobe
    unfold qlQmiQmapModeDetect detectQmi
    rw [filter_none hnone]
    dsimp only
    rw [hprobe]
    dsimp only
    rw [if_neg hmux]
    exact ⟨_, rfl, (out_keeps sys _).2.1, (out_keeps sys _).2.2⟩

end Detect

/-! ## A driver for PCIe -/

open QmiRequests

def driver (mode : ℕ) : RmnetInfo where
  size := 172
  rxUrbSize := 16384
  qmapMode := mode
  qmapVersion := 9
  ifname i := if i < mode then "rmnet_mhi0.".toList ++ decimal (i + 1) else []
  muxId i := if i < mode then 0x81 + UInt8.ofNat i else 0
  ifname_short i := by
    have hname : ∀ i : Fin 8, ("rmnet_mhi0.".toList ++ decimal (i + 1)).length < 16 := by decide
    split_ifs
    · exact hname i
    · decide

def mhi (mode : ℕ) : Sys where
  driver := "mhi_netdev".toList
  rmnetInfo := some (driver mode)
  files _ := .missing

def profileOf (p : UserInput.Input) : Profile where
  qmichannel := "/dev/mhi_QMI0".toList
  usbnetAdapter := "rmnet_mhi0".toList
  driverName := []
  pdp := p.pdp
  muxid := p.muxid
  qmapMode := 0
  qmapnetAdapter := []
  qmapSize := 0
  qmapVersion := 0

def ipv4 : UserInput.Input := { UserInput.Input.init with enableIpv4 := true }

def seventhPdn : List Bytes := ["quectel-CM", "-n", "7", "-m", "1"].map ascii

/-- The seventh PDN is bound to the first of four interfaces. -/
theorem selects_seventhPdn : ∃ d,
    qlQmiQmapModeDetect (mhi 4) (profileOf { ipv4 with pdp := 7, muxid := 0x81 }) = some d
    ∧ Safe (some d) ∧ d.profile.muxid = 0x81
    ∧ d.profile.qmapnetAdapter = "rmnet_mhi0.1".toList := by
  have hparse : UserInput.parseUserInput seventhPdn
      = some { ipv4 with pdp := 7, muxid := 0x81 } := by decide +kernel
  have hselects : Selects seventhPdn (mhi 4) (profileOf { ipv4 with pdp := 7, muxid := 0x81 }) :=
    selects_of_parse hparse rfl rfl
  have hchooses := hselects.qmi (driver 4) rfl (by decide) (by decide) (by decide)
  have hzero : choice (driver 4).qmapMode (selected seventhPdn) = 0 := by decide +kernel
  rw [hzero] at hchooses
  obtain ⟨⟨d, hd, hreads⟩, hchosen⟩ := hchooses (by decide) (by decide)
  obtain ⟨-, hchosen⟩ := hchosen d hd
  obtain ⟨hmux, hname⟩ := hchosen 0 rfl
  exact ⟨d, hd, ⟨d, rfl, hreads⟩, hmux, hname⟩

def secondPdn : List Bytes := ["quectel-CM", "-n", "2"].map ascii

def secondIface : List Bytes := ["quectel-CM", "-m", "2"].map ascii

/-- A single interface is chosen for the second PDN too, and `-m` is nothing to MBIM. -/
theorem selection_overridden :
    (UserInput.parseUserInput secondPdn = some { ipv4 with pdp := 2 }
      ∧ ¬ ChoosesEntry (qlQmiQmapModeDetect (mhi 1) (profileOf { ipv4 with pdp := 2 })) (driver 1)
        (selected secondPdn))
    ∧ UserInput.parseUserInput secondIface = some { ipv4 with muxid := 0x82 }
      ∧ ¬ ChoosesEntry (qlMbimMhiQmapModeDetect (mhi 2) (profileOf { ipv4 with muxid := 0x82 }))
        (driver 2) (selected secondIface) := by
  have hpdn : selected secondPdn = 1 := by decide +kernel
  have hiface : selected secondIface = 1 := by decide +kernel
  have hqmi : (qlQmiQmapModeDetect (mhi 1) (profileOf { ipv4 with pdp := 2 })).map
      (·.profile.muxid) = some 0x81 := by decide +kernel
  have hmbim : (qlMbimMhiQmapModeDetect (mhi 2) (profileOf { ipv4 with muxid := 0x82 })).map
      (·.profile.muxid) = some 1 := by decide +kernel
  refine ⟨⟨by decide +kernel, ?_⟩, by decide +kernel, ?_⟩
  · rintro ⟨-, d, hd, i, hi, hmux, -⟩
    rw [hpdn] at hi
    obtain rfl : i = 1 := Fin.ext (Int.ofNat.inj hi)
    rw [hd, Option.map_some, hmux] at hqmi
    exact absurd hqmi (by decide)
  · rintro ⟨-, d, hd, i, hi, hmux, -⟩
    rw [hiface] at hi
    obtain rfl : i = 1 := Fin.ext (Int.ofNat.inj hi)
    rw [hd, Option.map_some, hmux] at hmbim
    exact absurd hmbim (by decide)

end QmapMode

end BananaWrt
