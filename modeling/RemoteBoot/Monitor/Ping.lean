import RemoteBoot.Wake.Packet
import RemoteBoot.Monitor.Verdict

/-! Whom a ping believes. It reads one packet and looks at nothing but its type,
so it is right about the pinged host exactly when that packet settles the matter. -/
namespace RemoteBoot.Monitor
open Wake

/-- `icmp_req->id` and `icmp_req->seqno`, the same in every request. -/
def icmpReqId : UInt16 := htons 1
def icmpReqSeqno : UInt16 := htons 1

/-- The reply of `target` to the request just sent. -/
def IcmpPacket.Replies (packet : IcmpPacket) (target : UInt32) : Prop :=
  packet.type = icmpEr ∧ packet.src = target ∧ packet.id = icmpReqId ∧ packet.seqno = icmpReqSeqno

instance (packet : IcmpPacket) (target : UInt32) : Decidable (packet.Replies target) :=
  inferInstanceAs (Decidable (_ ∧ _))

/-- There is nothing to reply to unless the request went out. -/
def PingEnv.Replied (env : PingEnv) (target : UInt32) : Prop :=
  env.socket = true ∧ env.sent = true ∧ ∃ packet ∈ env.delivered, packet.Replies target

instance (env : PingEnv) (target : UInt32) : Decidable (env.Replied target) :=
  inferInstanceAs (Decidable (_ ∧ _ ∧ _))

/-- A first packet that is some echo reply comes with the reply of `target`, a
first packet of another type comes without it. -/
def FirstDecides (target : UInt32) : List IcmpPacket → Prop
  | [] => True
  | packet :: later =>
    if packet.type = icmpEr then packet.Replies target ∨ ∃ p ∈ later, p.Replies target
    else ∀ p ∈ later, ¬ p.Replies target

theorem firstDecides_iff (target : UInt32) (delivered : List IcmpPacket) :
    FirstDecides target delivered ↔ ((∃ packet ∈ delivered.head?, packet.type = icmpEr) ↔
      ∃ packet ∈ delivered, packet.Replies target) := by
  cases delivered with
  | nil => simp [FirstDecides]
  | cons packet later =>
    have first : (∃ p ∈ (packet :: later).head?, p.type = icmpEr) ↔ packet.type = icmpEr := by
      simp only [List.head?_cons, Option.mem_def, Option.some.injEq, exists_eq_left']
    have any : (∃ p ∈ packet :: later, p.Replies target) ↔
        packet.Replies target ∨ ∃ p ∈ later, p.Replies target := by
      simp only [List.mem_cons, exists_eq_or_imp]
    rw [first, any]
    by_cases reply : packet.type = icmpEr
    · simp only [FirstDecides, if_pos reply, iff_true_left reply]
    · have other : ¬ packet.Replies target := fun replies => reply replies.1
      simp only [FirstDecides, if_neg reply, iff_false_left reply, other, false_or]
      push Not
      rfl

theorem ping_values (env : PingEnv) : ping env = 0 ∨ ping env = 1 := by
  by_cases answered : env.Answered
  · exact .inr ((ping_answered env).mpr answered)
  · refine .inl ?_
    unfold ping
    split
    · rename_i open_
      simp only [Bool.and_eq_true] at open_
      cases first : env.delivered.head? with
      | none => rfl
      | some packet =>
        refine if_neg fun reply => answered ?_
        exact ⟨open_.1, open_.2, packet, first, reply⟩
    · rfl

/-- `ping` returns 1 for the reply of the pinged host and 0 without it, exactly
when the socket or the request fails or the first packet decides. -/
theorem ping_right_iff (env : PingEnv) (computerIpAddr : UInt32) :
    (ping env = if env.Replied computerIpAddr then 1 else 0) ↔
      (env.socket = true → env.sent = true → FirstDecides computerIpAddr env.delivered) := by
  have judged : (ping env = if env.Replied computerIpAddr then 1 else 0) ↔
      (env.Answered ↔ env.Replied computerIpAddr) := by
    rw [← ping_answered]
    rcases ping_values env with value | value
    all_goals by_cases replied : env.Replied computerIpAddr <;> simp [value, replied]
  rw [judged, PingEnv.Answered, PingEnv.Replied, firstDecides_iff]
  cases env.socket with
  | false => simp
  | true =>
    cases env.sent with
    | false => simp
    | true => simp

/-- The reply of another host comes first, or a request does and the reply after it. -/
theorem ping_misjudges :
    (ping ⟨true, true, [⟨0x0301a8c0, icmpEr, icmpReqId, icmpReqSeqno⟩]⟩ = 1 ∧
      ¬ PingEnv.Replied ⟨true, true, [⟨0x0301a8c0, icmpEr, icmpReqId, icmpReqSeqno⟩]⟩ 0x0201a8c0) ∧
    (ping ⟨true, true, [⟨0x0301a8c0, 8, icmpReqId, icmpReqSeqno⟩,
        ⟨0x0201a8c0, icmpEr, icmpReqId, icmpReqSeqno⟩]⟩ = 0 ∧
      PingEnv.Replied ⟨true, true, [⟨0x0301a8c0, 8, icmpReqId, icmpReqSeqno⟩,
        ⟨0x0201a8c0, icmpEr, icmpReqId, icmpReqSeqno⟩]⟩ 0x0201a8c0) := by
  decide

end RemoteBoot.Monitor
