import LinuxOS.Muduo.ReleaseHistory

namespace LinuxOS.Muduo.Connection
variable {s middle next : Connection} {frame : Frame} {received : RecvResult}
  {result : SendResult} {message : Bytes} {key : Nat} {cancelled : Bool}

-- The output law: what the socket took, then what is still queued, is what was sent.
def Kept (s : Connection) : Prop := s.accepted ++ s.outBuffer.readable = s.sent

def Shut (s : Connection) : Prop := s.released = true → s.sockOpen = false

-- A method that moves no output byte, and that leaves the socket open only if
-- it does not release.
structure Silent (s next : Connection) : Prop where
  output : SameOutput s next
  shut : Shut s → Shut next

theorem Silent.trans (left : Silent s middle) (right : Silent middle next) : Silent s next :=
  ⟨left.output.trans right.output,fun shut => right.shut (left.shut shut)⟩

theorem silent_refl : Silent s s := ⟨⟨rfl,rfl,rfl⟩,fun shut => shut⟩

theorem silent_same (accepted : next.accepted = s.accepted) (outBuffer : next.outBuffer = s.outBuffer)
    (sent : next.sent = s.sent) (released : next.released = s.released)
    (sockOpen : next.sockOpen = s.sockOpen) : Silent s next :=
  ⟨⟨accepted,outBuffer,sent⟩,by simp [Shut,released,sockOpen]⟩

theorem silent_push : Silent s (s.push frame) := silent_same rfl rfl rfl rfl rfl

theorem silent_mess : Silent s s.messOnInput := by
  rcases s.messOnInput_cases with same | pushed
  · rw [same]; exact silent_refl
  · rw [pushed]; exact silent_push

theorem silent_release : Silent s s.releaseInLoop :=
  ⟨s.release_facts.output,fun _ _ => s.release_facts.sockOpen⟩

theorem silent_shutDown : Silent s s.shutDownInLoop := by
  have entered : Silent s (push {s with status := .disconnecting} .shutDown) := silent_same rfl rfl rfl rfl rfl
  exact entered.trans silent_mess

theorem silent_shutDownTail : Silent s s.shutDownTail := by
  unfold shutDownTail
  split
  · exact silent_release
  · split
    · exact silent_refl
    · exact silent_same rfl rfl rfl rfl rfl

theorem silent_handleWriteTail : Silent s s.handleWriteTail := by
  unfold handleWriteTail
  split
  · have quiet : Silent s s.disableWrite := silent_same rfl rfl rfl rfl rfl
    dsimp only
    split
    · exact quiet.trans silent_release
    · exact quiet
  · exact silent_refl

theorem silent_serverClose : Silent s s.serverClose := by
  unfold serverClose
  split
  · exact silent_same rfl rfl rfl rfl rfl
  · exact silent_refl

theorem silent_resume (taken : resume s frame = some next) : Silent s next := by
  cases frame with
  | handleAnyEvent => cases taken; exact silent_refl
  | handleWriteError => cases taken; exact silent_push.trans silent_release
  | handleWriteTail => cases taken; exact silent_handleWriteTail
  | handleClose => cases taken; exact silent_release
  | shutDown => cases taken; exact silent_shutDownTail
  | serverClose => cases taken; exact silent_serverClose
  | timerRelease => cases taken; exact silent_same rfl rfl rfl rfl rfl
  | conn | anyEvent | closed | mess => cases taken

theorem silent_handleRead (taken : s.handleRead received = some next) : Silent s next := by
  unfold handleRead at taken
  split at taken
  · cases taken; exact silent_refl
  · cases received with
    | again => cases taken; exact silent_refl
    | error | eof => cases taken; exact silent_shutDown
    | data bytes =>
      dsimp only at taken
      split at taken
      · obtain ⟨filled,_,equal⟩ := Option.bind_eq_some_iff.mp taken
        cases equal
        have fill : Silent s {s with inBuffer := filled} := silent_same rfl rfl rfl rfl rfl
        exact fill.trans silent_mess
      · cases taken

theorem silent_handleClose : Silent s s.handleClose := silent_push.trans silent_mess

theorem silent_handleAnyEvent : Silent s s.handleAnyEvent := by
  unfold handleAnyEvent
  dsimp only
  split
  · exact silent_push.trans silent_push
  · exact silent_push

theorem silent_established (taken : s.establishedInLoop = some next) : Silent s next := by
  unfold establishedInLoop at taken
  split at taken
  · have reading : Silent s (enableRead {s with status := .connected}) := silent_same rfl rfl rfl rfl rfl
    cases taken
    split
    · exact reading.trans silent_push
    · exact reading
  · cases taken

theorem silent_timerDestroy (taken : s.timerDestroy key cancelled = some next) : Silent s next := by
  unfold timerDestroy at taken
  split at taken
  · have dropped : Silent s {s with tasks := s.tasks.erase (key,cancelled)} := silent_same rfl rfl rfl rfl rfl
    cases taken
    dsimp only
    split
    · exact silent_same rfl rfl rfl rfl rfl
    · exact (dropped.trans silent_push).trans silent_release
  · cases taken

theorem silent_enableInactive : Silent s s.enableInactiveReleaseInLoop := by
  unfold enableInactiveReleaseInLoop
  split <;> exact silent_same rfl rfl rfl rfl rfl

theorem silent_cancelInactive : Silent s s.cancelInactiveReleaseInLoop := by
  unfold cancelInactiveReleaseInLoop
  split <;> exact silent_same rfl rfl rfl rfl rfl

theorem send_output (kept : Kept s) (shut : Shut s) (taken : s.sendInLoop message = some next) :
    Kept next ∧ Shut next := by
  unfold sendInLoop at taken
  split at taken
  · cases taken; exact ⟨kept,shut⟩
  · obtain ⟨out,written,equal⟩ := Option.bind_eq_some_iff.mp taken
    obtain ⟨queue,pushed,readable⟩ := s.outBuffer.writeAndPush_spec message
    rw [written] at pushed
    cases pushed
    have appended : Kept {s with outBuffer := out, sent := s.sent ++ message} := by
      show s.accepted ++ out.readable = s.sent ++ message
      rw [readable,← List.append_assoc,kept]
    cases equal
    dsimp only
    split
    · exact ⟨appended,shut⟩
    · exact ⟨appended,shut⟩

-- HandleWrite empties the queue whatever send does with the bytes.
theorem handleWrite_output (taken : s.handleWrite result = some next) :
    s.outBuffer.readable ≠ [] ∧ next.outBuffer.readable = [] ∧ next.sent = s.sent ∧
    (result ≠ .error → s.sockOpen = true ∧ next.sockOpen = s.sockOpen ∧ next.released = s.released) ∧
    match result with
    | .count taken => taken ≤ s.outBuffer.readable.length ∧
        next.accepted = s.accepted ++ s.outBuffer.readable.take taken
    | .again | .error => next.accepted = s.accepted := by
  obtain ⟨⟨str,out⟩,popped,taken⟩ := Option.bind_eq_some_iff.mp taken
  have positive : 0 < s.outBuffer.readableSize := by
    apply Nat.pos_of_ne_zero
    intro zero
    simp [zero,Buffer.readStringAndPop,Buffer.readString,Buffer.moveReadOffset] at popped
  have length := s.outBuffer.readable_length
  obtain ⟨left,spec,rest⟩ := s.outBuffer.readStringAndPop_spec (Nat.le_of_eq length.symm) positive
  rw [popped] at spec
  cases spec
  have whole : s.outBuffer.readable.take s.outBuffer.readableSize = s.outBuffer.readable :=
    List.take_of_length_le (Nat.le_of_eq length)
  have empty : out.readable = [] := by
    rw [rest]
    exact List.drop_of_length_le (Nat.le_of_eq length)
  have some_left : s.outBuffer.readable ≠ [] := List.ne_nil_of_length_pos (length ▸ positive)
  rw [whole] at taken
  cases result with
  | error =>
    cases taken
    have silent : Silent {s with outBuffer := out} (messOnInput (push {s with outBuffer := out} .handleWriteError)) :=
      silent_push.trans silent_mess
    exact ⟨some_left,by rw [silent.output.outBuffer]; exact empty,silent.output.sent,by simp,silent.output.accepted⟩
  | again =>
    dsimp only at taken
    split at taken
    · rename_i sock; cases taken; exact ⟨some_left,empty,rfl,fun _ => ⟨sock,rfl,rfl⟩,rfl⟩
    · cases taken
  | count size =>
    dsimp only at taken
    split at taken
    · rename_i allowed
      cases taken
      exact ⟨some_left,empty,rfl,fun _ => ⟨allowed.1,rfl,rfl⟩,allowed.2,rfl⟩
    · cases taken

def NoSendError (_ : Connection) (action : Action) : Prop := action ≠ .handleWrite .error

def WholeWrite (s : Connection) (action : Action) : Prop :=
  ∀ result, action = .handleWrite result → result = .count s.outBuffer.readableSize

theorem step_output (taken : Taken s action next) (kept : Kept s) (shut : Shut s)
    (other : ∀ result, action ≠ .handleWrite result) : Kept next ∧ Shut next := by
  have silently : Silent s next → Kept next ∧ Shut next := by
    intro silent
    have output := silent.output
    refine ⟨?_,silent.shut shut⟩
    rw [Kept,output.accepted,output.outBuffer,output.sent]
    exact kept
  cases taken with
  | established _ ran => exact silently (silent_established ran)
  | handleAnyEvent => exact silently silent_handleAnyEvent
  | handleRead _ ran => exact silently (silent_handleRead ran)
  | handleWrite => exact absurd rfl (other _)
  | handleClose | handleError => exact silently silent_handleClose
  | timerDestroy _ ran => exact silently (silent_timerDestroy ran)
  | send _ ran => exact send_output kept shut ran
  | shutDown => exact silently silent_shutDown
  | enableInactiveRelease => exact silently silent_enableInactive
  | cancelInactiveRelease => exact silently silent_cancelInactive
  | consume | ret => exact ⟨kept,shut⟩
  | @resume frame rest _ _ ran =>
    have popped : Silent s {s with stack := rest} := silent_same rfl rfl rfl rfl rfl
    exact silently (popped.trans (silent_resume ran))

theorem step_kept (s : Connection) (action : Action) (next : Connection) (holds : Kept s ∧ Shut s)
    (whole : WholeWrite s action) (taken : step s action = some next) : Kept next ∧ Shut next := by
  cases action with
  | handleWrite result =>
    cases step_taken taken with
    | handleWrite _ ran =>
      cases whole result rfl
      obtain ⟨_,empty,sent,sock,_,accepted⟩ := handleWrite_output ran
      obtain ⟨_,sockOpen,released⟩ := sock (by simp)
      refine ⟨?_,by simpa [Shut,sockOpen,released] using holds.2⟩
      rw [Kept,empty,sent,accepted,List.append_nil,← Buffer.readable_length,List.take_length]
      exact holds.1
  | _ => exact step_output (step_taken taken) holds.1 holds.2 (by simp)

theorem write_whole (kept : Kept s) (shut : Shut s) (taken : s.handleWrite result = some next)
    (errorless : result ≠ .error) (after : next.released = false → Kept next) :
    result = .count s.outBuffer.readableSize := by
  obtain ⟨pending,empty,sent,sock,count⟩ := handleWrite_output taken
  obtain ⟨sockOpen,_,released⟩ := sock errorless
  have unreleased : next.released = false := by
    rw [released]
    cases gone : s.released with
    | false => rfl
    | true => rw [shut gone] at sockOpen; cases sockOpen
  have held := after unreleased
  rw [Kept,empty,sent,← kept,List.append_nil] at held
  have length := congrArg List.length held
  cases result with
  | error => exact absurd rfl errorless
  | again =>
    rw [count,List.length_append] at length
    have positive := List.length_pos_iff.mpr pending
    omega
  | count size =>
    rw [count.2] at length
    simp only [List.length_append,List.length_take] at length
    have size_eq : size = s.outBuffer.readable.length := by omega
    rw [size_eq,Buffer.readable_length]

theorem run_kept_iff (kept : Kept s) (shut : Shut s) (errorless : Machine.Throughout step NoSendError s actions)
    (ran : Machine.run step s actions = some last) :
    (∀ front rest middle, actions = front ++ rest → Machine.run step s front = some middle →
      middle.released = false → Kept middle) ↔ Machine.Throughout step WholeWrite s actions := by
  constructor
  · intro always
    induction actions generalizing s with
    | nil => trivial
    | cons action rest ih =>
      obtain ⟨middle,taken,ran⟩ := Option.bind_eq_some_iff.mp ran
      simp only [Machine.Throughout,taken] at errorless ⊢
      have first : middle.released = false → Kept middle :=
        always [action] rest middle rfl (by simp [Machine.run_cons,taken])
      have whole : WholeWrite s action := by
        intro result equal
        subst equal
        cases step_taken taken with
        | handleWrite _ written => exact write_whole kept shut written (by simpa [NoSendError] using errorless.1) first
      obtain ⟨kept,shut⟩ := step_kept s action middle ⟨kept,shut⟩ whole taken
      refine ⟨whole,ih kept shut errorless.2 ran ?_⟩
      intro front back later split reached
      apply always (action :: front) back later (by rw [split]; rfl)
      rw [Machine.run_cons,taken]
      exact reached
  · intro whole front rest middle split reached _
    subst split
    exact (Machine.run_keeps step_kept ⟨kept,shut⟩ (Machine.throughout_append whole).1 reached).1

theorem fresh_kept (fresh : Fresh s) : Kept s ∧ Shut s :=
  ⟨by rw [Kept,fresh.accepted,fresh.sent,fresh.outEmpty,List.append_nil],by simp [Shut,fresh.released]⟩

theorem no_byte_lost_iff (fresh : Fresh s) (errorless : Machine.Throughout step NoSendError s actions)
    (ran : Machine.run step s actions = some last) :
    (∀ front rest middle, actions = front ++ rest → Machine.run step s front = some middle →
      middle.released = false → Kept middle) ↔ Machine.Throughout step WholeWrite s actions :=
  run_kept_iff (fresh_kept fresh).1 (fresh_kept fresh).2 errorless ran

instance (s : Connection) (action : Action) : Decidable (NoSendError s action) := by
  unfold NoSendError; infer_instance

instance (s : Connection) (action : Action) : Decidable (WholeWrite s action) :=
  match action with
  | .handleWrite result => decidable_of_iff (result = .count s.outBuffer.readableSize)
      ⟨fun whole _ same => by cases same; exact whole,fun whole => whole result rfl⟩
  | .established | .handleAnyEvent | .handleRead _ | .handleClose | .handleError | .timerDestroy _ _ | .send _
  | .shutDown | .enableInactiveRelease | .cancelInactiveRelease | .consume _ | .ret | .resume => .isTrue nofun

def wholeWrites : List Action :=
  [.established,.ret,.send [1,2],.send [3],.handleWrite (.count 3),.resume,.send [4],.handleWrite (.count 1)]

theorem no_byte_lost_whole : ∃ last, Machine.run step {} wholeWrites = some last ∧ last.accepted = [1,2,3,4] ∧
    Machine.Throughout step WholeWrite {} wholeWrites ∧
    ∀ front rest middle, wholeWrites = front ++ rest → Machine.run step {} front = some middle →
      middle.released = false → Kept middle := by
  have ends : (Machine.run step {} wholeWrites).map Connection.accepted = some [1,2,3,4] := by decide +kernel
  obtain ⟨last,ran,accepted⟩ := Option.map_eq_some_iff.mp ends
  have whole : Machine.Throughout step WholeWrite {} wholeWrites := by decide +kernel
  exact ⟨last,ran,accepted,whole,(no_byte_lost_iff fresh_start (by decide +kernel) ran).mpr whole⟩

def shortWrite : List Action := [.established,.ret,.send [1,2],.handleWrite (.count 1)]

theorem short_write_loses : ¬ ∀ (s last : Connection) (actions : List Action), Fresh s →
    Machine.Throughout step NoSendError s actions → Machine.run step s actions = some last →
    last.released = false → Kept last := by
  intro always
  have ends : (Machine.run step {} shortWrite).map
      (fun s => (s.released,s.accepted,s.outBuffer.readable,s.sent)) = some (false,[1],[],[1,2]) := by
    decide +kernel
  obtain ⟨last,ran,looks⟩ := Option.map_eq_some_iff.mp ends
  simp only [Prod.mk.injEq] at looks
  obtain ⟨released,accepted,readable,sent⟩ := looks
  have kept := always {} last shortWrite fresh_start (by decide +kernel) ran released
  rw [Kept,accepted,readable,sent] at kept
  cases kept

end LinuxOS.Muduo.Connection
