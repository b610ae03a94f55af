import RemoteBoot.Console.Command
import RemoteBoot.Wake.Packet

/-! The address as the console accepts it and as the thread reads it. The test
of the console is one ASCII range over twelve of the seventeen characters; the
file carries the text up to its first NUL, and `strtol` goes by its own rules. -/
namespace RemoteBoot.Wake
open Bytes Config Console Lines Strtol

/-- Six pairs of hexadecimal digits with other characters between them. -/
structure HexPairs (t : List UInt8) : Prop where
  length : t.length = 17
  digits : ∀ i < 6, IsDigit 16 (t.getD (3 * i) 0) ∧ IsDigit 16 (t.getD (3 * i + 1) 0)
  separators : ∀ i < 5, ¬ IsDigit 16 (t.getD (3 * i + 2) 0)

/-- The six bytes of each turn, as the thread prints them. -/
def computedMacs (actions : List Action) : List (List UInt8) :=
  actions.filterMap fun
    | .kprintfMac mac => some mac
    | _ => none

/-- A line that is accepted and saved is made of digit pairs, and every turn of
the thread that finds the saved text beside four other lines computes them. -/
def MeansPairs (t : List UInt8) : Prop :=
  ∀ (s u : State) actions, s.curCmd = .mac → cmdHandle s t t.length = some (u, actions) →
    saves actions = [u.config] → HexPairs t ∧
    ∀ saved : ConfigInfo, saved.str .macAddress = u.config.str .macAddress →
      (∀ g ≠ .macAddress, newline ∉ saved.str g ∧ (saved.str g).length < strSize) →
      ∀ netdev sockfd stack, ∃ left sent,
        wolThread netdev sockfd (some (Card.reliable.written saved)) stack = some (left, sent) ∧
        computedMacs sent = [macOf t]

/-- The characters from `'0'` to `'f'` that are no hexadecimal digits. -/
def InGap (c : UInt8) : Prop := (58 ≤ c ∧ c ≤ 64) ∨ (71 ≤ c ∧ c ≤ 96)

instance (c : UInt8) : Decidable (InGap c) := inferInstanceAs (Decidable (_ ∨ _))

/-- What the console would have to look at: the gaps of its range, the
separators, and a NUL or a newline that cuts the saved text short. -/
structure Legible (t : List UInt8) : Prop where
  digits : ∀ i < 6, ¬ InGap (t.getD (3 * i) 0) ∧ ¬ InGap (t.getD (3 * i + 1) 0)
  separators : ∀ i < 5, ¬ IsDigit 16 (t.getD (3 * i + 2) 0)
  oneLine : newline ∉ cstring t
  nothingCut : ∀ i < 5, t.getD (3 * i + 2) 0 = 0 → ∀ j < 6, i < j →
    t.getD (3 * j) 0 = 48 ∧ t.getD (3 * j + 1) 0 = 48

theorem inDigitRange_iff (c : UInt8) : IsDigit 16 c ↔ inDigitRange c = true ∧ ¬ InGap c := by
  simp only [isDigit_hex, inDigitRange, InGap, Bool.and_eq_true, decide_eq_true_eq, ge_iff_le,
    UInt8.le_iff_toNat_le, UInt8.reduceToNat]
  omega

theorem macAccepted_iff (t : List UInt8) : macAccepted t t.length = true ↔ t.length = 17 ∧
    ∀ i < 6, inDigitRange (t.getD (3 * i) 0) = true ∧ inDigitRange (t.getD (3 * i + 1) 0) = true := by
  rw [macAccepted, Bool.and_eq_true, beq_iff_eq, List.all_eq_true]
  refine and_congr_right fun _ => ⟨fun all i small => ?_, fun pairs p member => ?_⟩
  · have place : 3 * i ∈ [0, 1, 3, 4, 6, 7, 9, 10, 12, 13, 15, 16] ∧
        3 * i + 1 ∈ [0, 1, 3, 4, 6, 7, 9, 10, 12, 13, 15, 16] := by
      simp only [List.mem_cons, List.not_mem_nil, or_false]
      omega
    exact ⟨all _ place.1, all _ place.2⟩
  · have place : p / 3 < 6 ∧ (p = 3 * (p / 3) ∨ p = 3 * (p / 3) + 1) := by
      simp only [List.mem_cons, List.not_mem_nil, or_false] at member
      omega
    rcases place with ⟨small, high | low⟩
    · exact high ▸ (pairs _ small).1
    · exact low ▸ (pairs _ small).2

theorem digit_zero {c : UInt8} (digit : IsDigit 16 c) (zero : (digit? 16 c).getD 0 = 0) : c = 48 := by
  have range := (isDigit_hex c).mp digit
  simp only [digit?, digitValue, ← UInt8.toNat_inj, UInt8.le_iff_toNat_le, UInt8.reduceToNat]
    at range zero ⊢
  rcases range with low | upper | lower
  · rw [if_pos low, Option.filter_some_pos (by simp; omega), Option.getD_some] at zero
    omega
  · rw [if_neg (by omega), if_pos (by omega), Option.filter_some_pos (by simp; omega),
      Option.getD_some] at zero
    omega
  · rw [if_neg (by omega), if_neg (by omega), if_pos (by omega),
      Option.filter_some_pos (by simp; omega), Option.getD_some] at zero
    omega

theorem pairValue_zero (t : List UInt8) {i : Nat} (high : IsDigit 16 (t.getD (3 * i) 0))
    (low : IsDigit 16 (t.getD (3 * i + 1) 0)) :
    pairValue t i = 0 ↔ t.getD (3 * i) 0 = 48 ∧ t.getD (3 * i + 1) 0 = 48 := by
  constructor
  · intro zero
    have highSmall := digit?_lt 16 (by decide) (t.getD (3 * i) 0)
    have lowSmall := digit?_lt 16 (by decide) (t.getD (3 * i + 1) 0)
    have value := congrArg UInt8.toNat zero
    rw [pairValue, UInt8.toNat_ofNat', Nat.mod_eq_of_lt (by omega), UInt8.toNat_zero] at value
    exact ⟨digit_zero high (by omega), digit_zero low (by omega)⟩
  · rintro ⟨first, second⟩
    rw [pairValue, first, second]
    decide

namespace HexPairs

theorem of_accepted {t : List UInt8} (accepted : macAccepted t t.length)
    (digits : ∀ i < 6, ¬ InGap (t.getD (3 * i) 0) ∧ ¬ InGap (t.getD (3 * i + 1) 0))
    (separators : ∀ i < 5, ¬ IsDigit 16 (t.getD (3 * i + 2) 0)) : HexPairs t := by
  obtain ⟨length, ranges⟩ := (macAccepted_iff t).mp accepted
  refine ⟨length, fun i small => ⟨?_, ?_⟩, separators⟩
  · exact (inDigitRange_iff _).mpr ⟨(ranges i small).1, (digits i small).1⟩
  · exact (inDigitRange_iff _).mpr ⟨(ranges i small).2, (digits i small).2⟩

theorem noGap {t : List UInt8} (pairs : HexPairs t) :
    ∀ i < 6, ¬ InGap (t.getD (3 * i) 0) ∧ ¬ InGap (t.getD (3 * i + 1) 0) := fun i small =>
  ⟨((inDigitRange_iff _).mp (pairs.digits i small).1).2,
    ((inDigitRange_iff _).mp (pairs.digits i small).2).2⟩

/-- The saved text ends with the line or at a separator. -/
theorem cut {t : List UInt8} (pairs : HexPairs t) : (cstring t).length = 17 ∨
    ∃ i < 5, (cstring t).length = 3 * i + 2 ∧ t.getD (3 * i + 2) 0 = 0 := by
  have bound := length_cstring_le t
  rw [pairs.length] at bound
  refine (Nat.eq_or_lt_of_le bound).imp_right fun shorter => ?_
  have nul : t.getD (cstring t).length 0 = 0 := by
    rw [List.getD_eq_getElem?_getD, getElem?_nul (pairs.length.symm ▸ shorter)]
    rfl
  have place : (cstring t).length = 3 * ((cstring t).length / 3) ∨
      (cstring t).length = 3 * ((cstring t).length / 3) + 1 ∨
      (cstring t).length = 3 * ((cstring t).length / 3) + 2 := by omega
  rcases place with high | low | separator
  · have digit := (pairs.digits ((cstring t).length / 3) (by omega)).1
    rw [← high] at digit
    exact absurd nul (digit_ne_nul digit)
  · have digit := (pairs.digits ((cstring t).length / 3) (by omega)).2
    rw [← low] at digit
    exact absurd nul (digit_ne_nul digit)
  · exact ⟨_, by omega, separator, separator ▸ nul⟩

/-- Behind the saved text the cleared member reads as zero. -/
theorem strtol_cut {t : List UInt8} (pairs : HexPairs t) {cells : List UInt8}
    (inside : ∀ k < (cstring t).length, cells[k]? = some (dotToNul (t.getD k 0)))
    (behind : ∀ k < strSize, (cstring t).length ≤ k → cells[k]? = some 0) {i : Nat}
    (small : i < 6) : UInt8.ofInt (strtol 16 (cstring (cells.drop (3 * i)))) =
      if 3 * i < (cstring t).length then pairValue t i else 0 := by
  have room : strSize = 100 := rfl
  split
  · rename_i within
    have both : 3 * i + 1 < (cstring t).length := by
      rcases pairs.cut with whole | ⟨k, _, ends, _⟩ <;> omega
    have highCell := inside (3 * i) within
    have lowCell := inside (3 * i + 1) both
    rw [dotToNul_digit (pairs.digits i small).1] at highCell
    rw [dotToNul_digit (pairs.digits i small).2] at lowCell
    obtain ⟨next, nextCell, stops⟩ : ∃ next, cells[3 * i + 2]? = some next ∧ ¬ IsDigit 16 next := by
      by_cases separated : 3 * i + 2 < (cstring t).length
      · have bound := length_cstring_le t
        rw [pairs.length] at bound
        exact ⟨_, inside _ separated, dotToNul_stops (pairs.separators i (by omega))⟩
      · exact ⟨0, behind _ (by omega) (Nat.le_of_not_lt separated), by decide⟩
    exact strtol_pair_at highCell lowCell nextCell (pairs.digits i small).1 (pairs.digits i small).2 stops
  · rename_i beyond
    have empty : cstring (cells.drop (3 * i)) = [] := by
      rw [drop_cons (behind (3 * i) (by omega) (Nat.le_of_not_lt beyond))]
      exact cstring_append_nul List.not_mem_nil _
    rw [empty]
    decide

end HexPairs

/-- The bytes of a turn that finds the text of `t` up to its first NUL. -/
def readMac (t : List UInt8) : List UInt8 :=
  (List.range 6).map fun i => if 3 * i < (cstring t).length then pairValue t i else 0

theorem wolThread_computes {t : List UInt8} (pairs : HexPairs t) (netdev : Netdev) (sockfd : Int)
    (s : Settings) (text : (s .macAddress).bytes = cstring t) (stack : ConfigInfo) :
    ∃ left sent, wolThread netdev sockfd (some s.encode) stack = some (left, sent) ∧
      computedMacs sent = [readMac t] := by
  obtain ⟨cleared, clear, zeros, _⟩ := stack.memcpy_field .macAddress (List.replicate strSize 0)
    (Nat.le_of_eq List.length_replicate)
  rw [List.drop_of_length_le (by rw [List.length_replicate, stack.length_slot]), List.append_nil]
    at zeros
  obtain ⟨config, read, cells⟩ := initFromFile_encode_slot s cleared
  obtain ⟨left, dots, turn⟩ := wolThread_read netdev sockfd clear read
  rw [cells, text, zeros, List.drop_replicate, List.map_append, List.map_cons, List.map_replicate,
    ← List.replicate_succ] at dots
  have inside : ∀ k < (cstring t).length, (left.slot .macAddress)[k]? = some (dotToNul (t.getD k 0)) := by
    intro k within
    have bound := Nat.lt_of_lt_of_le within (length_cstring_le t)
    rw [dots, List.getElem?_append_left (by rwa [List.length_map]), List.getElem?_map,
      getElem?_cstring within, List.getD_eq_getElem?_getD, List.getElem?_eq_getElem bound,
      Option.map_some, Option.getD_some]
  have behind : ∀ k < strSize, (cstring t).length ≤ k → (left.slot .macAddress)[k]? = some 0 := by
    intro k room beyond
    rw [dots, List.getElem?_append_right (by rwa [List.length_map]), List.length_map,
      List.getElem?_replicate_of_lt (by omega)]
    rfl
  have parsed : parseMac left = readMac t := by
    have offsets : [0, 3, 6, 9, 12, 15] = (List.range 6).map (3 * ·) := rfl
    rw [parseMac, offsets, List.map_map, readMac]
    refine List.map_congr_left fun i member => ?_
    rw [Function.comp_apply, drop_macAddress]
    exact pairs.strtol_cut inside behind (List.mem_range.mp member)
  refine ⟨left, _, turn, ?_⟩
  by_cases failed : sockfd = -1
  · simp [computedMacs, failed, parsed]
  · simp [computedMacs, failed, parsed]

theorem wolThread_saved {t : List UInt8} (pairs : HexPairs t) (oneLine : newline ∉ cstring t)
    {saved : ConfigInfo} (text : saved.str .macAddress = cstring t)
    (lines : ∀ g ≠ .macAddress, newline ∉ saved.str g ∧ (saved.str g).length < strSize)
    (netdev : Netdev) (sockfd : Int) (stack : ConfigInfo) :
    ∃ left sent, wolThread netdev sockfd (some (Card.reliable.written saved)) stack =
        some (left, sent) ∧ computedMacs sent = [readMac t] := by
  have good : ∀ f, newline ∉ saved.str f ∧ (saved.str f).length < strSize := by
    intro f
    by_cases isMac : f = .macAddress
    · have := length_cstring_le t
      rw [pairs.length] at this
      rw [isMac, text]
      exact ⟨oneLine, Nat.lt_of_le_of_lt this (by decide)⟩
    · exact lines f isMac
  let s := saved.settings (fun f => (good f).2) (fun f => (good f).1)
  rw [written_reliable (show saved.Holds s from fun _ => rfl)]
  exact wolThread_computes pairs netdev sockfd s text stack

/-- A text with a newline makes the saved file one line too long. -/
theorem wolThread_past {saved : ConfigInfo} (broken : newline ∈ saved.str .macAddress)
    (short : (saved.str .macAddress).length < strSize)
    (lines : ∀ g ≠ .macAddress, newline ∉ saved.str g ∧ (saved.str g).length < strSize)
    (netdev : Netdev) (sockfd : Int) (stack : ConfigInfo) :
    wolThread netdev sockfd (some (Card.reliable.written saved)) stack = none := by
  obtain ⟨fifth, tail, text, fifthClean⟩ := List.eq_append_cons_of_mem broken
  obtain ⟨sixth, rest, tailText, sixthClean⟩ :=
    List.eq_append_cons_of_mem (show newline ∈ tail ++ [newline] by simp)
  have widths := congrArg List.length text
  have widths' := congrArg List.length tailText
  simp only [List.length_append, List.length_cons, List.length_nil] at widths widths'
  have content : Card.reliable.written saved = unlines newline [saved.str .wifiName,
      saved.str .wifiPassword, saved.str .mqttUsername, saved.str .mqttPasswd, fifth] ++
      (sixth ++ newline :: rest) := by
    rw [written_lines, ← tailText]
    simp [unlines, Field.all, text]
  have good : ∀ l ∈ [saved.str .wifiName, saved.str .wifiPassword, saved.str .mqttUsername,
      saved.str .mqttPasswd, fifth], newline ∉ l ∧ l.length < strSize := by
    simp only [List.forall_mem_cons, List.not_mem_nil, false_implies, implies_true, and_true]
    exact ⟨lines _ (by decide), lines _ (by decide), lines _ (by decide), lines _ (by decide),
      fifthClean, by omega⟩
  obtain ⟨cleared, clear, _⟩ := stack.memcpy_field .macAddress (List.replicate strSize 0)
    (Nat.le_of_eq List.length_replicate)
  have unread := initFromFile_past rfl good sixthClean (by omega) rest cleared
  simp [wolThread, clear, content, unread]

theorem saved_text {s u : State} (inMac : s.curCmd = .mac)
    (handled : cmdHandle s t t.length = some (u, actions)) (saved : saves actions = [u.config]) :
    macAccepted t t.length = true ∧ u.config.str .macAddress = cstring t := by
  rw [cmdHandle, inMac] at handled
  by_cases accepted : macAccepted t t.length = true
  · obtain ⟨config, entered, cells, _⟩ := macEntry_stores s accepted
    rw [entered] at handled
    cases handled
    exact ⟨accepted, ConfigInfo.str_of_slot cells (macAccepted_short accepted)⟩
  · rw [macEntry_refused s accepted] at handled
    cases handled
    cases saved

/-- The console at the address prompt, with an empty configuration. -/
def addressPrompt : State := ⟨.mac, .zeroed, 0, .zeroed⟩

theorem accepted_at_prompt {t : List UInt8} (accepted : macAccepted t t.length) :
    ∃ u actions, cmdHandle addressPrompt t t.length = some (u, actions) ∧
      saves actions = [u.config] ∧ u.config.str .macAddress = cstring t ∧
      ∀ g ≠ .macAddress, newline ∉ u.config.str g ∧ (u.config.str g).length < strSize := by
  obtain ⟨config, entered, cells, frame⟩ := macEntry_stores addressPrompt accepted
  refine ⟨_, _, entered, rfl, ConfigInfo.str_of_slot cells (macAccepted_short accepted),
    fun g other => ?_⟩
  have same : config.str g = ConfigInfo.zeroed.str g :=
    ConfigInfo.str_congr (frame g other) (ConfigInfo.zeroed_terminated g)
  have empty : ConfigInfo.zeroed.str g = [] := by
    cases g <;> decide
  rw [same, empty]
  exact ⟨List.not_mem_nil, by decide⟩

theorem readMac_eq_iff {t : List UInt8} (pairs : HexPairs t) : readMac t = macOf t ↔
    ∀ i < 5, t.getD (3 * i + 2) 0 = 0 → ∀ j < 6, i < j →
      t.getD (3 * j) 0 = 48 ∧ t.getD (3 * j + 1) 0 = 48 := by
  have zeros := fun j small => pairValue_zero t (pairs.digits j small).1 (pairs.digits j small).2
  rw [readMac, macOf, List.map_inj_left]
  constructor
  · intro same i small nul j inside later
    have ended : (cstring t).length ≤ 3 * j := by
      by_contra within
      refine not_mem_cstring t (List.mem_of_getElem? (i := 3 * i + 2) ?_)
      rw [getElem?_cstring (by omega), ← nul, List.getD_eq_getElem?_getD,
        List.getElem?_eq_getElem (by rw [pairs.length]; omega), Option.getD_some]
    have value := same j (List.mem_range.mpr inside)
    rw [if_neg (Nat.not_lt.mpr ended)] at value
    exact (zeros j inside).mp value.symm
  · intro cut j member
    have inside := List.mem_range.mp member
    split
    · rfl
    · rcases pairs.cut with whole | ⟨i, small, ends, nul⟩
      · omega
      · exact ((zeros j inside).mpr (cut i small nul j inside (by omega))).symm

/-- What the console accepts as an address is one, and is read as it stands,
exactly when it avoids the gaps of the range, keeps digits and newlines out of
the separators, and shows nothing but zeros behind a NUL. -/
theorem mac_line_means_iff (t : List UInt8) :
    MeansPairs t ↔ (macAccepted t t.length → Legible t) := by
  constructor
  · intro means accepted
    obtain ⟨u, actions, entered, saved, text, lines⟩ := accepted_at_prompt accepted
    obtain ⟨pairs, turns⟩ := means _ u actions rfl entered saved
    obtain ⟨left, sent, turn, computed⟩ := turns u.config rfl lines ⟨0, 0⟩ 0 .zeroed
    have short : (u.config.str .macAddress).length < strSize := by
      have := length_cstring_le t
      rw [pairs.length] at this
      rw [text]
      exact Nat.lt_of_le_of_lt this (by decide)
    have oneLine : newline ∉ cstring t := by
      intro broken
      rw [wolThread_past (text ▸ broken) short lines] at turn
      cases turn
    obtain ⟨_, _, turn', read⟩ := wolThread_saved pairs oneLine text lines ⟨0, 0⟩ 0 .zeroed
    obtain ⟨rfl, rfl⟩ : _ = left ∧ _ = sent := by simpa using turn'.symm.trans turn
    have same : readMac t = macOf t := by simpa using read.symm.trans computed
    exact ⟨pairs.noGap, pairs.separators, oneLine, (readMac_eq_iff pairs).mp same⟩
  · intro legible s u actions inMac handled kept
    obtain ⟨accepted, text⟩ := saved_text inMac handled kept
    obtain ⟨digits, separators, oneLine, nothingCut⟩ := legible accepted
    have pairs := HexPairs.of_accepted accepted digits separators
    refine ⟨pairs, fun saved same lines netdev sockfd stack => ?_⟩
    rw [← (readMac_eq_iff pairs).mpr nothingCut]
    exact wolThread_saved pairs oneLine (same.trans text) lines netdev sockfd stack

/-- The line `GG:GG:GG:GG:GG:GG`. -/
def gapLine : List UInt8 :=
  [71, 71, 58, 71, 71, 58, 71, 71, 58, 71, 71, 58, 71, 71, 58, 71, 71]

theorem gapLine_accepted : macAccepted gapLine gapLine.length = true := by
  decide

theorem mac_line_no_address : ¬ (∀ t, MeansPairs t) := by
  intro all
  obtain ⟨u, actions, entered, saved, _⟩ := accepted_at_prompt gapLine_accepted
  have pairs := (all gapLine _ u actions rfl entered saved).1
  exact absurd (pairs.digits 0 (by decide)).1 (by decide)

end RemoteBoot.Wake
