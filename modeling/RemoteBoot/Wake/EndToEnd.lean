import RemoteBoot.Console.Command
import RemoteBoot.Wake.Packet

/-! From a typed address to the datagram. The console, the file and the thread
share nothing but the text of the fifth line. -/
namespace RemoteBoot.Wake
open Config Console Strtol

namespace MacLine

theorem char (mac : MacLine t) {c : UInt8} (member : c ∈ t) : IsDigit 16 c ∨ c ∈ [58, 45, 46] := by
  obtain ⟨j, inside, rfl⟩ := List.mem_iff_getElem.mp member
  have cell : t[j] = t.getD j 0 := by
    rw [List.getD_eq_getElem?_getD, List.getElem?_eq_getElem inside, Option.getD_some]
  have bound := mac.length ▸ inside
  have position : j = 3 * (j / 3) ∨ j = 3 * (j / 3) + 1 ∨ j = 3 * (j / 3) + 2 := by omega
  rw [cell]
  rcases position with first | second | third
  · exact .inl (first ▸ mac.high (j / 3) (by omega))
  · exact .inl (second ▸ mac.low (j / 3) (by omega))
  · exact .inr (third ▸ mac.separator (j / 3) (by omega))

theorem clean (mac : MacLine t) : newline ∉ t ∧ 0 ∉ t := by
  constructor
  · intro member
    exact absurd (mac.char member) (by decide)
  · intro member
    exact absurd (mac.char member) (by decide)

theorem accepted (mac : MacLine t) : macAccepted t t.length = true := by
  have inRange : ∀ c : UInt8, IsDigit 16 c → inDigitRange c = true := by
    intro c digit
    have range := (isDigit_hex c).mp digit
    simp only [UInt8.le_iff_toNat_le, UInt8.reduceToNat] at range
    simp only [inDigitRange, Bool.and_eq_true, decide_eq_true_eq, ge_iff_le,
      UInt8.le_iff_toNat_le, UInt8.reduceToNat]
    omega
  rw [macAccepted, mac.length, beq_self_eq_true, Bool.true_and, List.all_eq_true]
  intro i member
  have position : i / 3 < 6 ∧ (i = 3 * (i / 3) ∨ i = 3 * (i / 3) + 1) := by
    simp only [List.mem_cons, List.not_mem_nil, or_false] at member
    omega
  rcases position with ⟨small, first | second⟩
  · rw [first]
    exact inRange _ (mac.high _ small)
  · rw [second]
    exact inRange _ (mac.low _ small)

end MacLine

/-- A line of six digit pairs typed at the address prompt is accepted and saved,
and the next wake-up sends one datagram that wakes exactly that address. -/
theorem wake_end_to_end (s : State) (inMac : s.curCmd = .mac) (good : s.config.Terminated)
    (noNewline : ∀ f, newline ∉ s.config.str f) (mac : MacLine t) (file : Option (List UInt8))
    (netdev : Netdev) (sockfd : Int) (created : sockfd ≠ -1) (stack : ConfigInfo) :
    ∃ u actions content left sent data,
      cmdHandle s t t.length = some (u, actions) ∧ saves actions = [u.config] ∧ u.curCmd = .null ∧
      writeToFile .reliable file u.config = (.ok (), some content) ∧
      wolThread netdev sockfd (some content) stack = some (left, sent) ∧
      datagrams sent = [(data, ⟨htons 9, (netdev.ipAddr &&& netdev.netmask) ||| ~~~netdev.netmask⟩)] ∧
      data.length = 102 ∧
      data = List.replicate 6 0xff ++
        (List.replicate 16 ((List.range 6).map (pairValue t))).flatten := by
  obtain ⟨config, entered, string, frame⟩ := macEntry_accepted s mac.accepted
    mac.clean.2
  have strings := ConfigInfo.str_update good string frame
  have terminated := ConfigInfo.terminated_update good string mac.short frame
  have oneLine : ∀ f, newline ∉ config.str f := by
    intro f
    rw [strings]
    by_cases isMac : f = .macAddress
    · rw [isMac, Function.update_self]
      exact mac.clean.1
    · rw [Function.update_of_ne isMac]
      exact noNewline f
  have spelled : ((config.settings terminated oneLine) .macAddress).bytes = t := string
  have written : Card.reliable.written config = (config.settings terminated oneLine).encode :=
    written_reliable fun _ => rfl
  obtain ⟨left, sent, turn, packets⟩ := wolThread_sends netdev created
    (config.settings terminated oneLine) (spelled.symm ▸ mac) stack
  have dispatch : cmdHandle s t t.length = macEntry s t t.length := by rw [cmdHandle, inMac]
  refine ⟨_, _, _, left, sent, magicPacket (macOf t), dispatch.trans entered, ?_, rfl, ?_, turn, ?_,
    length_magicPacket (by simp [macOf]), rfl⟩
  · rw [saves_write, saves_kprintf, saves_guide]
  · rw [writeToFile, written]
    rfl
  · rw [packets, spelled, broadcastAddr, UInt32.or_comm]

theorem wake_end_to_end_sample : ∃ u actions content left sent data,
    cmdHandle ⟨.mac, .zeroed, 0, .zeroed⟩ sampleLine sampleLine.length = some (u, actions) ∧
    saves actions = [u.config] ∧ u.curCmd = .null ∧
    writeToFile .reliable none u.config = (.ok (), some content) ∧
    wolThread ⟨0, 0⟩ 3 (some content) .zeroed = some (left, sent) ∧
    datagrams sent = [(data, ⟨htons 9, ((0 : UInt32) &&& 0) ||| ~~~0⟩)] ∧ data.length = 102 ∧
    data = List.replicate 6 0xff ++
      (List.replicate 16 ((List.range 6).map (pairValue sampleLine))).flatten :=
  wake_end_to_end ⟨.mac, .zeroed, 0, .zeroed⟩ rfl ConfigInfo.zeroed_terminated
    (fun f => by cases f <;> decide) sampleLine_mac none ⟨0, 0⟩ 3 (by decide) .zeroed

end RemoteBoot.Wake
