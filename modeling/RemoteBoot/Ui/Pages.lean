import RemoteBoot.Transition

/-! The loop of `ui_thread_body`: a mail from the key or from the cloud, the page
it leads to, and the drawing of that page. -/
namespace RemoteBoot.Ui
open Transition

/-- `PAGE_MAX` -/
def pageMax : UInt32 := 3

/-- What `key_check` sends. The cloud may send any value, this one included. -/
def keyMail : UInt32 := 100

/-- What the display shows. The page of no known number is an empty one. -/
inductive Screen where
  | boot | time | wifi | mac | about | blank
  deriving DecidableEq, Repr

/-- The variables of the loop, and the display. -/
structure UiThread where
  pageIndex : UInt32
  pageIndexBak : UInt32
  pageChangedFlag : Bool
  screen : Screen
  deriving DecidableEq

/-- What a turn of the loop meets: the mail or the timeout, and whether
`init_from_file` succeeds if it is called. -/
structure Turn where
  mail : Option UInt32
  read : Bool
  deriving DecidableEq

namespace UiThread

def start : UiThread := ⟨0, 0, false, .boot⟩

/-- `rt_mb_recv` into `page_index`, which a timeout leaves as it is. -/
def receive (s : UiThread) : Option UInt32 → UiThread
  | none => s
  | some mail =>
    if mail = keyMail then
      { s with
        pageIndex := if s.pageIndexBak = pageMax then 0 else s.pageIndexBak + 1
        pageChangedFlag := true }
    else { s with pageIndex := mail, pageChangedFlag := true }

/-- A page other than the clock; none where its read fails. -/
def page (pageIndex : UInt32) (read : Bool) : Option Screen :=
  if pageIndex = 1 then if read then some .wifi else none
  else if pageIndex = 2 then if read then some .mac else none
  else if pageIndex = 3 then some .about
  else some .blank

def draw (s : UiThread) (read : Bool) : UiThread :=
  if s.pageIndex = 0 then { s with screen := .time, pageIndexBak := s.pageIndex }
  else if s.pageChangedFlag then
    match page s.pageIndex read with
    | some screen => { s with screen, pageChangedFlag := false, pageIndexBak := s.pageIndex }
    -- `continue`, past the flag and past `page_index_bak`
    | none => s
  else { s with pageIndexBak := s.pageIndex }

def turn (s : UiThread) (t : Turn) : UiThread := (s.receive t.mail).draw t.read

def step (s : UiThread) (t : Turn) : Option UiThread := some (s.turn t)

/-- A page that exists, is drawn, and is left for page 0 where it is the last. -/
structure PageExists (s : UiThread) : Prop where
  index : s.pageIndex ≤ pageMax
  bak : s.pageIndexBak ≤ pageMax
  drawn : s.screen ≠ .blank
  wraps : s.pageIndex = pageMax → ∀ read, (s.turn ⟨some keyMail, read⟩).pageIndex = 0

end UiThread

/-- The mail of a turn, if any, is a page or the key. -/
def Turn.Known (t : Turn) : Prop := ∀ mail ∈ t.mail, mail ≤ pageMax ∨ mail = keyMail

theorem le_pageMax (i : UInt32) : i ≤ pageMax ↔ i = 0 ∨ i = 1 ∨ i = 2 ∨ i = 3 := by
  simp only [pageMax, UInt32.le_iff_toNat_le, ← UInt32.toNat_inj, UInt32.reduceToNat]
  omega

namespace UiThread

@[simp] theorem draw_pageIndex (s : UiThread) (read : Bool) : (s.draw read).pageIndex = s.pageIndex := by
  simp only [draw]
  split
  · rfl
  · split
    · split <;> rfl
    · rfl

/-- A turn ends with both indices the same, or at a failed read. -/
theorem draw_bak (s : UiThread) (read : Bool) : (s.draw read).pageIndexBak = s.pageIndex ∨
    (s.draw read = s ∧ s.pageChangedFlag = true ∧ (s.pageIndex = 1 ∨ s.pageIndex = 2) ∧ read = false) := by
  simp only [draw]
  split
  · exact .inl rfl
  · split
    · rename_i changed
      split
      · exact .inl rfl
      · rename_i failed
        refine .inr ⟨rfl, changed, ?_⟩
        simp only [page] at failed
        split at failed
        · rename_i one
          exact ⟨.inl one, by simpa using failed⟩
        · split at failed
          · rename_i two
            exact ⟨.inr two, by simpa using failed⟩
          · split at failed <;> cases failed
    · exact .inl rfl

theorem draw_screen (s : UiThread) (read : Bool) (index : s.pageIndex ≤ pageMax) (drawn : s.screen ≠ .blank) :
    (s.draw read).screen ≠ .blank := by
  simp only [draw]
  split
  · exact fun same => by cases same
  · rename_i other
    split
    · split
      · rename_i screen shown
        rintro rfl
        rcases (le_pageMax _).mp index with at0 | at1 | at2 | at3
        · exact other at0
        · simp [page, at1] at shown
        · simp [page, at2] at shown
        · simp [page, at3] at shown
      · exact drawn
    · exact drawn

theorem receive_key (s : UiThread) : (s.receive (some keyMail)).pageIndex =
    if s.pageIndexBak = pageMax then 0 else s.pageIndexBak + 1 := by
  simp only [receive, if_true]

theorem next_le {bak : UInt32} (inside : bak ≤ pageMax) :
    (if bak = pageMax then 0 else bak + 1) ≤ pageMax := by
  rcases (le_pageMax bak).mp inside with rfl | rfl | rfl | rfl <;> decide

theorem receive_index {s : UiThread} (holds : s.PageExists) (mail : Option UInt32) :
    (s.receive mail).pageIndex ≤ pageMax ↔ ∀ m ∈ mail, m ≤ pageMax ∨ m = keyMail := by
  cases mail with
  | none => simp [receive, holds.index]
  | some m =>
    simp only [Option.mem_def, Option.some.injEq, forall_eq']
    by_cases key : m = keyMail
    · subst key
      rw [receive_key]
      exact iff_of_true (next_le holds.bak) (.inr rfl)
    · simp only [receive, key, if_false, or_false]

@[simp] theorem receive_bak (s : UiThread) (mail : Option UInt32) :
    (s.receive mail).pageIndexBak = s.pageIndexBak := by
  cases mail with
  | none => rfl
  | some m =>
    simp only [receive]
    split <;> rfl

@[simp] theorem receive_screen (s : UiThread) (mail : Option UInt32) :
    (s.receive mail).screen = s.screen := by
  cases mail with
  | none => rfl
  | some m =>
    simp only [receive]
    split <;> rfl

theorem turn_pageExists {s : UiThread} (holds : s.PageExists) (t : Turn) :
    (s.turn t).PageExists ↔ t.Known := by
  have moved : (s.turn t).pageIndex = (s.receive t.mail).pageIndex := draw_pageIndex _ _
  rw [Turn.Known, ← receive_index holds t.mail]
  constructor
  · intro after
    exact moved ▸ after.index
  · intro index
    have ended := draw_bak (s.receive t.mail) t.read
    constructor
    · rw [moved]
      exact index
    · rcases ended with same | ⟨stayed, _⟩
      · rw [turn, same]
        exact index
      · rw [turn, stayed, receive_bak]
        exact holds.bak
    · exact draw_screen _ _ index (by rw [receive_screen]; exact holds.drawn)
    · intro last read
      have completed : (s.turn t).pageIndexBak = pageMax := by
        rw [moved] at last
        rcases ended with same | ⟨_, _, failed, _⟩
        · exact same.trans last
        · rw [last] at failed
          exact absurd failed (by decide)
      have next : ((s.turn t).turn ⟨some keyMail, read⟩).pageIndex =
          ((s.turn t).receive (some keyMail)).pageIndex := draw_pageIndex _ _
      rw [next, receive_key, if_pos completed]

theorem start_pageExists : start.PageExists :=
  ⟨by decide, by decide, by decide, fun last => absurd last (by decide)⟩

/-- The page exists after every turn exactly when every mail is a page or the key. -/
theorem pageExists_iff (ts : List Turn) :
    Always step PageExists start ts ↔ ∀ t ∈ ts, t.Known := by
  suffices general : ∀ s : UiThread, s.PageExists → (Always step PageExists s ts ↔ ∀ t ∈ ts, t.Known) from
    general start start_pageExists
  induction ts with
  | nil => exact fun s holds => iff_of_true holds (fun t member => absurd member List.not_mem_nil)
  | cons t ts ih =>
    intro s holds
    rw [Always.of_some (show step s t = some (s.turn t) from rfl), List.forall_mem_cons]
    constructor
    · rintro ⟨_, later⟩
      have after := later.head
      exact ⟨(turn_pageExists holds t).mp after, (ih _ after).mp later⟩
    · rintro ⟨known, rest⟩
      have after := (turn_pageExists holds t).mpr known
      exact ⟨holds, (ih _ after).mpr rest⟩

/-- The cloud sends 7: an empty page, and the key goes on to page 8. -/
theorem cloud_page_escapes : ¬ Always step PageExists start [⟨some 7, true⟩, ⟨some keyMail, true⟩] := by
  rintro ⟨_, later⟩
  exact absurd (later _ rfl).head.index (by decide)

end UiThread
end RemoteBoot.Ui
