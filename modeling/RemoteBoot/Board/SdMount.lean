import RemoteBoot.Kernel.Mailbox
import RemoteBoot.Transition

/-! The thread that mounts the SD card and the detect thread of the MMC core. The
one asks the other to look at the card and waits for the answer, and a look that
finds nothing is not answered. -/
namespace RemoteBoot.Board
open Kernel Transition

/-- What may sit in the slot: an SD or MMC card, or an SDIO card. -/
inductive Card where
  | memory | sdio
  deriving DecidableEq, Repr

/-- Where `_sdcard_mount` was called: before the loop of `sd_mount`, or in it. -/
inductive Site where
  | before | inLoop
  deriving DecidableEq, Repr

/-- Who waits for the detect thread. -/
inductive Caller where
  | mount (site : Site)
  | unmount
  deriving DecidableEq, Repr

/-- Where `sd_mount` is: the first look at the pin, the two tests of the loop, or
a line of `_sdcard_mount` or `_sdcard_unmount`. -/
inductive Point where
  | start | first | second
  | find (site : Site)
  | drain (caller : Caller)
  | change (caller : Caller)
  | wait (caller : Caller)
  | findAgain (site : Site)
  | dfsMount (site : Site)
  deriving DecidableEq, Repr

def Point.waits : Point → Bool
  | .wait _ => true
  | _ => false

/-- Where `_sdcard_mount` returns to. -/
def Site.back : Site → Point
  | .before => .first
  | .inLoop => .second

/-- Both threads, both mailboxes, `host->card`, whether "sd0" is registered, and
what is in the slot. -/
structure SdCard where
  point : Point
  reSdCheckPin : Bool
  sdStatus : Bool
  hotpluge : Mailbox Unit 4
  detect : Mailbox Unit 4
  busy : Bool
  card : Option Card
  sd0 : Bool
  slot : Option Card

inductive SdStep where
  | insert (card : Card)
  | remove
  /-- `sd_mount`, with the level of `SD_CHECK_PIN` and the result of `dfs_mount` -/
  | mount (pin mounted : Bool)
  /-- `mmcsd_detect` receives a request -/
  | take
  /-- and serves it, with the card that answers and what its initialisation makes of it -/
  | serve (found : Option Card) (ready registered : Bool)
  deriving DecidableEq

namespace SdCard

def powerOn (slot : Option Card) : SdCard :=
  ⟨.start, true, false, .empty, .empty, false, none, false, slot⟩

/-- `sd_mount` up to its next access. -/
def mount (s : SdCard) (pin mounted : Bool) : Option SdCard :=
  match s.point with
  | .start => some { s with point := if pin then .find .before else .first }
  | .first =>
    if s.reSdCheckPin then some { s with point := .second }
    else some { s with reSdCheckPin := pin, point := if pin then .find .inLoop else .second }
  | .second =>
    if s.reSdCheckPin then
      some { s with reSdCheckPin := pin, point := if pin then .first else .drain .unmount }
    else some { s with point := .first }
  | .find site => some { s with point := if s.sd0 then .dfsMount site else .drain (.mount site) }
  | .drain caller =>
    match s.hotpluge.recv with
    | some (_, hotpluge) => some { s with hotpluge, point := .change caller }
    | none => some { s with point := .change caller }
  | .change caller => some { s with detect := (s.detect.send ()).getD s.detect, point := .wait caller }
  | .wait caller =>
    match s.hotpluge.recv with
    | none => none
    | some (_, hotpluge) =>
      match caller with
      | .mount site => some { s with hotpluge, point := .findAgain site }
      | .unmount => some { s with hotpluge, point := .first, sdStatus := false }
  | .findAgain site => some { s with point := if s.sd0 then .dfsMount site else site.back }
  | .dfsMount site => some { s with point := site.back, sdStatus := mounted }

/-- One turn of `mmcsd_detect`: the card of the host, "sd0", and whether it mails. -/
def look (s : SdCard) (found : Option Card) (ready registered : Bool) : Option Card × Bool × Bool :=
  match s.card, found with
  | none, some .sdio => (if ready then some .sdio else none, s.sd0, false)
  | none, some .memory => (if ready then some .memory else none, ready && registered, true)
  | none, none => (none, s.sd0, false)
  | some .sdio, _ => (some .sdio, s.sd0, true)
  | some .memory, _ => (none, false, true)

def step (s : SdCard) : SdStep → Option SdCard
  | .insert card => if s.slot = none then some { s with slot := some card } else none
  | .remove => some { s with slot := none }
  | .mount pin mounted => s.mount pin mounted
  | .take =>
    if s.busy then none
    else
      match s.detect.recv with
      | some (_, detect) => some { s with detect, busy := true }
      | none => none
  | .serve found ready registered =>
    if s.busy = true ∧ (found = none ∨ found = s.slot) then
      let (card, sd0, mails) := s.look found ready registered
      some { s with
        card, sd0
        busy := false
        hotpluge := if mails then (s.hotpluge.send ()).getD s.hotpluge else s.hotpluge }
    else none

/-- Requests and answers that are still on their way. -/
def pending (s : SdCard) : Nat :=
  s.hotpluge.entries.length + s.detect.entries.length + s.busy.toNat

/-- Waiting for ever, with no answer and nobody to send one. -/
structure Stuck (s : SdCard) : Prop where
  waiting : s.point.waits = true
  noAnswer : s.hotpluge.entries = []
  noRequest : s.detect.entries = []
  idle : s.busy = false

/-- A look for a card finds an SD or MMC card. -/
def Answered (s : SdCard) : SdStep → Prop
  | .serve found _ _ => s.card = none → found = some .memory
  | _ => True

/-- A request is on its way at most while the thread waits, and then only one. -/
def Paired (s : SdCard) : Prop := s.pending ≤ s.point.waits.toNat

theorem stuck_iff (s : SdCard) : s.Stuck ↔ s.point.waits = true ∧ s.pending = 0 := by
  have parts : s.pending = 0 ↔
      s.hotpluge.entries = [] ∧ s.detect.entries = [] ∧ s.busy = false := by
    cases busy : s.busy <;> simp [pending, busy]
  rw [parts]
  constructor
  · exact fun stuck => ⟨stuck.waiting, stuck.noAnswer, stuck.noRequest, stuck.idle⟩
  · exact fun ⟨waiting, noAnswer, noRequest, idle⟩ => ⟨waiting, noAnswer, noRequest, idle⟩

@[simp] theorem back_waits (site : Site) : site.back.waits = false := by
  cases site <;> rfl

theorem send_empty {mb : Mailbox Unit 4} (none : mb.entries = []) :
    ((mb.send ()).getD mb).entries.length = 1 := by
  obtain ⟨after, sent⟩ := Option.isSome_iff_exists.mp
    ((Mailbox.send_isSome mb ()).mpr (by rw [none]; decide))
  rw [sent, Option.getD_some, Mailbox.send_eq_some sent, none]
  rfl

/-- The thread asks when nothing is on its way, takes the answer, or neither asks
nor waits. -/
theorem mount_cases {s t : SdCard} (stepped : s.mount pin mounted = some t) :
    (s.point.waits = false ∧ t.point.waits = false ∧ t.pending ≤ s.pending) ∨
    (s.point.waits = false ∧ t.point.waits = true ∧ (s.pending = 0 → t.pending = 1)) ∨
    (s.point.waits = true ∧ t.point.waits = false ∧ t.pending + 1 = s.pending) := by
  cases point : s.point with
  | start =>
    simp only [mount, point, Option.some.injEq] at stepped
    subst stepped
    refine .inl ⟨rfl, ?_, Nat.le_refl _⟩
    cases pin <;> rfl
  | first =>
    simp only [mount, point] at stepped
    split at stepped <;> cases stepped
    · exact .inl ⟨rfl, rfl, Nat.le_refl _⟩
    · refine .inl ⟨rfl, ?_, Nat.le_refl _⟩
      cases pin <;> rfl
  | second =>
    simp only [mount, point] at stepped
    split at stepped <;> cases stepped
    · refine .inl ⟨rfl, ?_, Nat.le_refl _⟩
      cases pin <;> rfl
    · exact .inl ⟨rfl, rfl, Nat.le_refl _⟩
  | find site =>
    simp only [mount, point, Option.some.injEq] at stepped
    subst stepped
    refine .inl ⟨rfl, ?_, Nat.le_refl _⟩
    cases sd0 : s.sd0 <;> rfl
  | drain caller =>
    simp only [mount, point] at stepped
    split at stepped <;> cases stepped
    · rename_i old
      refine .inl ⟨rfl, rfl, ?_⟩
      have drained := Mailbox.recv_eq_some old
      simp only [pending, drained, List.length_cons]
      omega
    · exact .inl ⟨rfl, rfl, Nat.le_refl _⟩
  | change caller =>
    simp only [mount, point, Option.some.injEq] at stepped
    subst stepped
    refine .inr (.inl ⟨rfl, rfl, fun none => ?_⟩)
    simp only [pending] at none ⊢
    have quiet : s.detect.entries = [] := List.eq_nil_of_length_eq_zero (by omega)
    have asked := send_empty quiet
    omega
  | wait caller =>
    simp only [mount, point] at stepped
    split at stepped
    · cases stepped
    · rename_i answer
      have taken := Mailbox.recv_eq_some answer
      refine .inr (.inr ⟨rfl, ?_⟩)
      cases caller with
      | mount site =>
        cases stepped
        refine ⟨rfl, ?_⟩
        simp only [pending, taken, List.length_cons]
        omega
      | unmount =>
        cases stepped
        refine ⟨rfl, ?_⟩
        simp only [pending, taken, List.length_cons]
        omega
  | findAgain site =>
    simp only [mount, point, Option.some.injEq] at stepped
    subst stepped
    refine .inl ⟨rfl, ?_, Nat.le_refl _⟩
    cases s.sd0 with
    | true => rfl
    | false => exact back_waits site
  | dfsMount site =>
    simp only [mount, point, Option.some.injEq] at stepped
    subst stepped
    exact .inl ⟨rfl, back_waits site, Nat.le_refl _⟩

/-- A look answers unless the host has no card and no SD or MMC card is found. -/
theorem look_mails (s : SdCard) (found : Option Card) (ready registered : Bool) :
    (s.look found ready registered).2.2 = true ↔ (s.card = none → found = some .memory) := by
  cases card : s.card with
  | none =>
    cases found with
    | none => simp [look, card]
    | some kind => cases kind <;> simp [look, card]
  | some kind => cases kind <;> simp [look, card]

theorem take_pending {s t : SdCard} (stepped : s.step .take = some t) :
    t.point = s.point ∧ t.pending = s.pending := by
  simp only [step] at stepped
  split at stepped
  · cases stepped
  · rename_i idle
    split at stepped <;> cases stepped
    rename_i request
    refine ⟨rfl, ?_⟩
    have taken := Mailbox.recv_eq_some request
    simp only [Bool.not_eq_true] at idle
    simp only [pending, taken, idle, List.length_cons, Bool.toNat_true, Bool.toNat_false]
    omega

/-- Serving turns the request into an answer or drops it. -/
theorem serve_pending {s t : SdCard} (paired : s.pending ≤ 1)
    (stepped : s.step (.serve found ready registered) = some t) :
    t.point = s.point ∧ s.pending = 1 ∧
      (t.pending = 1 ↔ (s.card = none → found = some .memory)) ∧ t.pending ≤ 1 := by
  simp only [step] at stepped
  split at stepped
  · rename_i serving
    have busy := serving.1
    cases stepped
    simp only [pending, busy, Bool.toNat_true] at paired
    have none : s.hotpluge.entries = [] := List.eq_nil_of_length_eq_zero (by omega)
    have quiet : s.detect.entries = [] := List.eq_nil_of_length_eq_zero (by omega)
    have mailed := send_empty none
    rw [← look_mails s found ready registered]
    refine ⟨rfl, ?_⟩
    cases mails : (s.look found ready registered).2.2 with
    | true => simp [pending, busy, none, quiet, mailed]
    | false => simp [pending, busy, none, quiet]
  · cases stepped

theorem step_paired {s t : SdCard} (paired : s.Paired) (stepped : s.step l = some t) : t.Paired := by
  unfold Paired at *
  cases l with
  | insert card =>
    simp only [step] at stepped
    split at stepped <;> cases stepped
    exact paired
  | remove =>
    cases stepped
    exact paired
  | mount pin mounted =>
    rcases mount_cases stepped with ⟨before, after, fewer⟩ | ⟨before, after, asked⟩ |
      ⟨before, after, answered⟩
    · rw [before] at paired
      rw [after]
      exact Nat.le_trans fewer paired
    · rw [before] at paired
      rw [after, asked (Nat.le_zero.mp paired)]
      exact Nat.le_refl 1
    · rw [before, ← answered] at paired
      rw [after]
      exact Nat.le_of_succ_le_succ paired
  | take =>
    obtain ⟨same, pending⟩ := take_pending stepped
    rwa [same, pending]
  | serve found ready registered =>
    obtain ⟨same, one, _, few⟩ := serve_pending (Nat.le_trans paired (Bool.toNat_le _)) stepped
    rw [one] at paired
    rw [same]
    exact Nat.le_trans few paired

theorem step_stuck {s t : SdCard} (paired : s.Paired) (free : ¬ s.Stuck) (stepped : s.step l = some t) :
    ¬ t.Stuck ↔ s.Answered l := by
  rw [stuck_iff] at free ⊢
  unfold Paired at paired
  cases l with
  | insert card =>
    simp only [step] at stepped
    split at stepped <;> cases stepped
    exact iff_of_true free trivial
  | remove =>
    cases stepped
    exact iff_of_true free trivial
  | mount pin mounted =>
    refine iff_of_true ?_ trivial
    rcases mount_cases stepped with ⟨_, after, _⟩ | ⟨before, _, asked⟩ | ⟨_, after, _⟩
    · exact fun stuck => absurd (after.symm.trans stuck.1) (by decide)
    · rw [before] at paired
      exact fun stuck => absurd ((asked (Nat.le_zero.mp paired)).symm.trans stuck.2) (by decide)
    · exact fun stuck => absurd (after.symm.trans stuck.1) (by decide)
  | take =>
    obtain ⟨same, pending⟩ := take_pending stepped
    rw [same, pending]
    exact iff_of_true free trivial
  | serve found ready registered =>
    obtain ⟨same, one, answered, few⟩ := serve_pending (Nat.le_trans paired (Bool.toNat_le _)) stepped
    have waits : s.point.waits = true := by
      cases waits : s.point.waits with
      | true => rfl
      | false =>
        rw [one, waits] at paired
        exact absurd paired (by decide)
    rw [same, Answered, ← answered]
    simp only [waits, true_and]
    omega

/-- The thread never waits for an answer that nobody will send, exactly when every
look for a card finds an SD or MMC card. -/
theorem never_stuck_iff (slot : Option Card) (run : Run step Free (powerOn slot) ls t) :
    Always step (fun s => ¬ s.Stuck) (powerOn slot) ls ↔ Run step Answered (powerOn slot) ls t := by
  refine run.always_iff Paired ?_ ?_ (Nat.zero_le _) (fun stuck => by cases stuck.waiting)
  · intro s l u paired _ stepped _
    exact step_paired paired stepped
  · intro s l u paired free stepped
    exact step_stuck paired free stepped

/-- A card that is in the slot from the start, mounted. -/
def sampleMount : List SdStep :=
  [.mount true false, .mount true false, .mount true false, .mount true false, .take,
    .serve (some .memory) true true, .mount true false, .mount true false, .mount true true]

theorem never_stuck_iff_mounted : ∃ t, Run step Free (powerOn (some .memory)) sampleMount t ∧
    (Always step (fun s => ¬ s.Stuck) (powerOn (some .memory)) sampleMount ↔
      Run step Answered (powerOn (some .memory)) sampleMount t) := by
  have run : Run step Free (powerOn (some .memory)) sampleMount _ := .of_foldlM rfl
  exact ⟨_, run, never_stuck_iff (some .memory) run⟩

/-- Power-on without a card. `re_sd_check_pin` starts out as 1, so the low pin is
taken for a removal, and the look that follows finds nothing. -/
theorem no_card_stuck : ∃ t, Run step Free (powerOn none)
    [.mount false false, .mount false false, .mount false false, .mount false false,
      .mount false false, .take, .serve none false false] t ∧ t.Stuck :=
  ⟨_, .of_foldlM rfl, rfl, rfl, rfl, rfl⟩

theorem stuck_step {s t : SdCard} (stuck : s.Stuck) (stepped : s.step l = some t) :
    t.Stuck ∧ t.sdStatus = s.sdStatus := by
  have ⟨waiting, noAnswer, noRequest, idle⟩ := stuck
  have silent {mb : Mailbox Unit 4} (none : mb.entries = []) : mb.recv = .none := by
    cases received : mb.recv with
    | none => rfl
    | some pair => exact absurd (none.symm.trans (Mailbox.recv_eq_some received)) (by simp)
  cases l with
  | insert card =>
    simp only [step] at stepped
    split at stepped <;> cases stepped
    exact ⟨⟨waiting, noAnswer, noRequest, idle⟩, rfl⟩
  | remove =>
    cases stepped
    exact ⟨⟨waiting, noAnswer, noRequest, idle⟩, rfl⟩
  | mount pin mounted =>
    cases point : s.point with
    | wait caller => simp [step, mount, point, silent noAnswer] at stepped
    | _ => simp [Point.waits, point] at waiting
  | take => simp [step, idle, silent noRequest] at stepped
  | serve found ready registered => simp [step, idle] at stepped

/-- From there on `sd_status` is what it was, whatever is inserted or removed. -/
theorem stuck_forever {s : SdCard} (stuck : s.Stuck) (run : Run step Free s ls t) :
    t.Stuck ∧ t.sdStatus = s.sdStatus := by
  refine run.invariant (P := fun u => u.Stuck ∧ u.sdStatus = s.sdStatus) ?_ ⟨stuck, rfl⟩
  rintro u l v ⟨held, same⟩ _ stepped
  obtain ⟨still, kept⟩ := stuck_step held stepped
  exact ⟨still, kept.trans same⟩

end SdCard
end RemoteBoot.Board
