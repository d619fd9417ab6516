import TableVault.Proofs.Vault.Holders

namespace TableVault

open Storage

/-!
# Waiting for a file that is held

An opening that finds its file held tries again until the time is up, and the others have their
turn in the pauses.

* `Disk.Patient` — the attempts that some pauses follow: all of them find the file held, in time;
* `Disk.foldl_retry_eq` — what an opening has come to is what its last attempt has come to, on
  the disk that the others have left by then;
* `Disk.awaitFile_ends`, `Disk.awaitFile_free` and `Disk.awaitFile_locked` — an opening answers
  once the time is up, takes hold of a file that is given up before, and does not give up before;
* `Disk.awaitFile_alone` — without others it answers what one attempt does;
* `Shared.awaitFile_run` — among others it is a run of deeds, each attempt one of them, so each
  file has one holder at most also where openings wait.
-/

namespace Storage.Disk

variable {options : OpenOptions} {path : String} {elapsed : Nat} {d d' : Disk}
  {pauses before after : List Pause} {course : Course} {r : EStateM.Result StorageError Disk Handle}

/-! ### One attempt after another -/

/-- An attempt goes on waiting if it finds the file held and there is time left, and then it has
    done nothing. Or else it answers. -/
theorem attempt_cases (options : OpenOptions) (path : String) (elapsed : Nat) (d : Disk) :
    (attach path d = .error (.locked path) d ∧ elapsed < options.lockTimeout ∧
        attempt options path elapsed d = .waiting elapsed d) ∨
      (attempt options path elapsed d = .answered (attach path d) ∧
        ∀ held d', attach path d = .error (.locked held) d' → options.lockTimeout ≤ elapsed) := by
  unfold attempt
  split
  · next held d' hattach =>
    obtain ⟨rfl, rfl, -⟩ := held_of_attach hattach
    split
    · next htime => exact .inr ⟨by rw [hattach], fun _ _ _ => htime⟩
    · next htime => exact .inl ⟨hattach, Nat.lt_of_not_le htime, rfl⟩
  · next hfree => exact .inr ⟨rfl, fun held d' hattach => absurd hattach (hfree held d')⟩

/-- An attempt that answers is the answer, and finds the file held only if the time is up. -/
theorem attempt_answered (hanswer : attempt options path elapsed d = .answered r) :
    attach path d = r ∧
      ∀ held d', attach path d = .error (.locked held) d' → options.lockTimeout ≤ elapsed := by
  rcases attempt_cases options path elapsed d with ⟨-, -, hwaiting⟩ | ⟨hattempt, htime⟩
  · rw [hwaiting] at hanswer
    cases hanswer
  · exact ⟨Opening.answered.inj (hattempt.symm.trans hanswer), htime⟩

/-- What has been answered stays answered. -/
theorem foldl_retry_answered (pauses : List Pause) :
    pauses.foldl (retry options path) (.answered r) = .answered r := by
  induction pauses with
  | nil => rfl
  | cons pause rest ih => exact ih

/-- The disk after some pauses. -/
def diskAfter (pauses : List Pause) (d : Disk) : Disk :=
  pauses.foldl (fun d pause => pause.others d) d

/-- The time that has passed after some pauses. -/
def elapsedAfter (options : OpenOptions) (pauses : List Pause) (elapsed : Nat) : Nat :=
  pauses.foldl (fun elapsed pause => elapsed + options.retryInterval + pause.late) elapsed

/-- Each attempt that one of the pauses follows finds the file held, and has time left. -/
def Patient (options : OpenOptions) (path : String) : List Pause → Nat → Disk → Prop
  | [], _, _ => True
  | pause :: rest, elapsed, d =>
    attach path d = .error (.locked path) d ∧ elapsed < options.lockTimeout ∧
      Patient options path rest (elapsed + options.retryInterval + pause.late) (pause.others d)

/-- Pauses that follow attempts in vain lead to another attempt. -/
theorem foldl_retry_patient (hpatient : Patient options path pauses elapsed d) :
    pauses.foldl (retry options path) (attempt options path elapsed d) =
      attempt options path (elapsedAfter options pauses elapsed) (diskAfter pauses d) := by
  induction pauses generalizing elapsed d with
  | nil => rfl
  | cons pause rest ih =>
    obtain ⟨hheld, htime, hrest⟩ := hpatient
    have hwaiting : attempt options path elapsed d = .waiting elapsed d := by
      rw [attempt, hheld]
      exact if_neg (Nat.not_le_of_lt htime)
    rw [hwaiting]
    exact ih hrest

/-- There is a last attempt: the one after which there are no more pauses, or one that answers. -/
theorem exists_last (pauses : List Pause) (elapsed : Nat) (d : Disk) :
    ∃ before after, pauses = before ++ after ∧ Patient options path before elapsed d ∧
      (after = [] ∨ ∃ r, attempt options path (elapsedAfter options before elapsed)
        (diskAfter before d) = .answered r) := by
  induction pauses generalizing elapsed d with
  | nil => exact ⟨[], [], rfl, trivial, .inl rfl⟩
  | cons pause rest ih =>
    rcases attempt_cases options path elapsed d with ⟨hheld, htime, -⟩ | ⟨hanswer, -⟩
    · obtain ⟨before, after, hsplit, hpatient, hlast⟩ :=
        ih (elapsed + options.retryInterval + pause.late) (pause.others d)
      exact ⟨pause :: before, after, by rw [hsplit, List.cons_append], ⟨hheld, htime, hpatient⟩,
        hlast⟩
    · exact ⟨[], pause :: rest, rfl, trivial, .inr ⟨_, hanswer⟩⟩

/-- **What an opening has come to is what its last attempt has come to**, on the disk that the
    others have left by then. -/
theorem foldl_retry_eq (options : OpenOptions) (path : String) (pauses : List Pause) (elapsed : Nat)
    (d : Disk) :
    ∃ before after, pauses = before ++ after ∧ Patient options path before elapsed d ∧
      (after = [] ∨ ∃ r, attempt options path (elapsedAfter options before elapsed)
        (diskAfter before d) = .answered r) ∧
      pauses.foldl (retry options path) (attempt options path elapsed d) =
        attempt options path (elapsedAfter options before elapsed) (diskAfter before d) := by
  obtain ⟨before, after, hsplit, hpatient, hlast⟩ := exists_last pauses elapsed d
  refine ⟨before, after, hsplit, hpatient, hlast, ?_⟩
  rw [hsplit, List.foldl_append, foldl_retry_patient hpatient]
  rcases hlast with rfl | ⟨r, hanswer⟩
  · rfl
  · rw [hanswer, foldl_retry_answered]

/-! ### When and what an opening answers -/

/-- An opening for which everything has been made ready makes its attempts, as long as the clock
    can tell when to give up. -/
theorem awaitFile_of_prepare {d₀ : Disk} (hprepare : prepare options path d = .ok () d₀)
    (hclock : options.lockTimeout ≤ course.horizon) :
    awaitFile options path course d =
      course.pauses.foldl (retry options path) (attempt options path course.took d₀) := by
  rw [awaitFile, hprepare]
  exact if_neg (Nat.not_lt_of_le hclock)

/-- An opening answers because nothing could be made ready, or after its attempts. -/
theorem awaitFile_answered (hanswer : awaitFile options path course d = .answered r) :
    (∃ e d₀, prepare options path d = .error e d₀ ∧ r = .error e d₀) ∨
      ∃ d₀, prepare options path d = .ok () d₀ ∧
        course.pauses.foldl (retry options path) (attempt options path course.took d₀) =
          .answered r := by
  rw [awaitFile] at hanswer
  split at hanswer
  · next e d₀ hprepare => exact .inl ⟨e, d₀, hprepare, (Opening.answered.inj hanswer).symm⟩
  · next d₀ hprepare =>
    split at hanswer
    · cases hanswer
    · exact .inr ⟨d₀, hprepare, hanswer⟩

/-- Pauses take the time between two attempts at least. -/
theorem le_elapsedAfter (options : OpenOptions) (pauses : List Pause) (elapsed : Nat) :
    elapsed + pauses.length * options.retryInterval ≤ elapsedAfter options pauses elapsed := by
  induction pauses generalizing elapsed with
  | nil => simp [elapsedAfter]
  | cons pause rest ih =>
    have hrest := ih (elapsed + options.retryInterval + pause.late)
    show _ ≤ elapsedAfter options rest (elapsed + options.retryInterval + pause.late)
    rw [List.length_cons, Nat.add_mul]
    omega

/-- **An opening answers once the time is up**, whatever the others do. -/
theorem awaitFile_ends (path : String) (d : Disk) (hclock : options.lockTimeout ≤ course.horizon)
    (htime : options.lockTimeout ≤ elapsedAfter options course.pauses course.took) :
    ∃ r, awaitFile options path course d = .answered r := by
  cases hprepare : prepare options path d with
  | error e d₀ => exact ⟨_, by rw [awaitFile, hprepare]⟩
  | ok _ d₀ =>
    rw [awaitFile_of_prepare hprepare hclock]
    obtain ⟨before, after, hsplit, -, rfl | ⟨r, hanswer⟩, heq⟩ :=
      foldl_retry_eq options path course.pauses course.took d₀
    · -- After the last pause there is no time left to wait.
      rw [List.append_nil] at hsplit
      rw [heq, ← hsplit]
      rcases attempt_cases options path (elapsedAfter options course.pauses course.took)
        (diskAfter course.pauses d₀) with ⟨-, hleft, -⟩ | ⟨hanswer, -⟩
      · exact absurd htime (Nat.not_le_of_lt hleft)
      · exact ⟨_, hanswer⟩
    · exact ⟨r, by rw [heq, hanswer]⟩

/-- So it makes no more attempts than there are intervals in that time, and one. -/
theorem awaitFile_ends_of_length (path : String) (d : Disk)
    (hclock : options.lockTimeout ≤ course.horizon)
    (hlength : options.lockTimeout ≤ course.pauses.length * options.retryInterval) :
    ∃ r, awaitFile options path course d = .answered r := by
  have htime := le_elapsedAfter options course.pauses course.took
  exact awaitFile_ends path d hclock (by omega)

/-- **An opening takes hold of a file that is given up in time**, however long it has waited. -/
theorem awaitFile_free {d₀ : Disk} {place : Place} {ts : Tables}
    (hprepare : prepare options path d = .ok () d₀) (hclock : options.lockTimeout ≤ course.horizon)
    (hsplit : course.pauses = before ++ after)
    (hpatient : Patient options path before course.took d₀)
    (hfree : (diskAfter before d₀).FileAt path place (.database ts none)) :
    awaitFile options path course d = .answered (.ok ((diskAfter before d₀).hold path place ts).1
      ((diskAfter before d₀).hold path place ts).2) := by
  have hattach := hfree.openFile_free options
  rw [openFile_of_exists hfree.fileExists] at hattach
  rw [awaitFile_of_prepare hprepare hclock, hsplit, List.foldl_append,
    foldl_retry_patient hpatient, attempt, hattach]
  exact foldl_retry_answered after

/-- **An opening does not give up before the time is up.** All its attempts have found the file
    held, and it leaves the disk as the others have. -/
theorem awaitFile_locked {held : String}
    (hlocked : awaitFile options path course d = .answered (.error (.locked held) d')) :
    held = path ∧ ∃ d₀ before after place ts n, prepare options path d = .ok () d₀ ∧
      course.pauses = before ++ after ∧ Patient options path before course.took d₀ ∧
      options.lockTimeout ≤ elapsedAfter options before course.took ∧
      d' = diskAfter before d₀ ∧ d'.FileAt path place (.database ts (some n)) := by
  rcases awaitFile_answered hlocked with ⟨e, d₀, herror, he⟩ | ⟨d₀, hprepare, hlast⟩
  · -- What has to be made ready is not locked.
    obtain ⟨d₁, -, ⟨fault, hfault⟩ | hok⟩ := prepare_eq options path d
    · rw [herror] at hfault
      cases hfault
      cases he
    · rw [herror] at hok
      cases hok
  · obtain ⟨before, after, hsplit, hpatient, -, heq⟩ :=
      foldl_retry_eq options path course.pauses course.took d₀
    rw [heq] at hlast
    obtain ⟨hattach, htime⟩ := attempt_answered hlast
    obtain ⟨rfl, rfl, place, ts, n, hfile⟩ := held_of_attach hattach
    exact ⟨rfl, d₀, before, after, place, ts, n, hprepare, hsplit, hpatient, htime _ _ hattach,
      rfl, hfile⟩

/-- Nobody changes the disk where there are no others. -/
theorem diskAfter_alone (halone : ∀ pause ∈ pauses, pause.others = id) : diskAfter pauses d = d := by
  induction pauses with
  | nil => rfl
  | cons pause rest ih =>
    show diskAfter rest (pause.others d) = d
    rw [halone pause List.mem_cons_self]
    exact ih fun p hp => halone p (List.mem_cons_of_mem pause hp)

/-- **Without others an opening answers what one attempt does**, once the time is up. -/
theorem awaitFile_alone (path : String) (d : Disk) (hclock : options.lockTimeout ≤ course.horizon)
    (htime : options.lockTimeout ≤ elapsedAfter options course.pauses course.took)
    (halone : ∀ pause ∈ course.pauses, pause.others = id) :
    awaitFile options path course d = .answered (openFile options path d) := by
  obtain ⟨r, hanswer⟩ := awaitFile_ends path d hclock htime
  rw [hanswer]
  rcases awaitFile_answered hanswer with ⟨e, d₀, herror, rfl⟩ | ⟨d₀, hprepare, hlast⟩
  · rw [openFile, bind_of_error herror]
  · obtain ⟨before, after, hsplit, -, -, heq⟩ :=
      foldl_retry_eq options path course.pauses course.took d₀
    have hbefore : ∀ pause ∈ before, pause.others = id := by
      rw [hsplit] at halone
      exact fun pause hpause => halone pause (List.mem_append_left after hpause)
    rw [heq, diskAfter_alone hbefore] at hlast
    rw [openFile, bind_of_ok hprepare, (attempt_answered hlast).1]

end Storage.Disk

/-! ### Openings among deeds -/

namespace Shared

variable {options : OpenOptions} {path : String} {w : Shared} {place : Place} {ts : Tables}
  {holder : Option Nat}

/-- A database stays where it is through a deed. -/
theorem fileAt_step (hfile : w.disk.FileAt path place (.database ts holder)) (deed : Deed) :
    ∃ us holder', (w.step deed).disk.FileAt path place (.database us holder') := by
  have hthrough : ∀ {ε α : Type} (index : Nat) (program : EStateM ε Durable α),
      ∃ us holder', (w.through index program).disk.FileAt path place (.database us holder') := by
    intro ε α index program
    unfold Shared.through
    split
    · obtain ⟨us, holder', hafter, -⟩ := hfile.through_any _ program
      exact ⟨us, holder', hafter⟩
    · exact ⟨ts, holder, hfile⟩
  cases deed with
  | openStore config path' fresh padlock =>
    obtain ⟨holder', hopened⟩ := hfile.openFile_any config.openOptions path'
    rw [Shared.step, given_disk]
    cases hopen : Disk.openFile config.openOptions path' w.disk with
    | error e d =>
      rw [outcome, hopen] at hopened
      rw [outcome, openStore_error hopen]
      exact ⟨ts, holder', hopened⟩
    | ok h d =>
      rw [outcome, hopen] at hopened
      rw [outcome_openStore config path' fresh padlock hopen]
      obtain ⟨us, holder'', hafter, -⟩ := hopened.through_any h (Store.withBackend fresh padlock)
      exact ⟨us, holder'', hafter⟩
  | openFile options path' =>
    rw [Shared.step, given_disk]
    exact ⟨ts, hfile.openFile_any options path'⟩
  | use index program => exact hthrough index program
  | close index => exact hthrough index _
  | cryptReset config path' =>
    obtain ⟨holder', hopened⟩ :=
      hfile.openFile_any { config.openOptions with createIfMissing := false } path'
    rw [Shared.step]
    cases hopen : Disk.openFile { config.openOptions with createIfMissing := false } path' w.disk with
    | error e d =>
      rw [outcome, hopen] at hopened
      rw [outcome, cryptReset_error hopen]
      exact ⟨ts, holder', hopened⟩
    | ok h d =>
      -- The reset and the end of its handle are two programs through the handle.
      rw [outcome, hopen] at hopened
      obtain ⟨n, d', hreset, hd', -⟩ := cryptReset_outcome hopen
      obtain ⟨us, holder₁, hreset₁, -⟩ := hopened.through_any h Padlock.reset
      obtain ⟨vs, holder₂, hclosed, -⟩ :=
        hreset₁.through_any h (Backend.close : StorageAction Durable Unit)
      rw [outcome, hreset]
      exact ⟨vs, holder₂, by rw [← release_eq, ← hd'] at hclosed; exact hclosed⟩

/-- A database stays where it is through several deeds. -/
theorem fileAt_run (hfile : w.disk.FileAt path place (.database ts holder)) (deeds : List Deed) :
    ∃ us holder', (w.run deeds).disk.FileAt path place (.database us holder') := by
  induction deeds generalizing w ts holder with
  | nil => exact ⟨ts, holder, hfile⟩
  | cons deed rest ih =>
    obtain ⟨us, holder', hstep⟩ := fileAt_step hfile deed
    exact ih hstep

/-- The pauses of an opening among deeds: how much longer each takes, and what the others do in
    it after the attempt before. -/
def pauses (options : OpenOptions) (path : String) :
    Shared → List (Nat × List Deed) → List Disk.Pause
  | _, [] => []
  | w, (late, deeds) :: rest =>
    let next := (w.step (.openFile options path)).run deeds
    ⟨late, fun _ => next.disk⟩ :: pauses options path next rest

/-- Attempts, and what the others do after each. -/
def attempts (options : OpenOptions) (path : String) (turns : List (Nat × List Deed)) :
    List Deed :=
  turns.flatMap fun turn => .openFile options path :: turn.2

/-- Deeds are done one after another. -/
theorem run_append (w : Shared) (deeds more : List Deed) :
    w.run (deeds ++ more) = (w.run deeds).run more :=
  List.foldl_append

/-- From an attempt on, an opening among deeds is a run of deeds. -/
theorem foldl_retry_run {d : Disk} {elapsed : Nat} {r : EStateM.Result StorageError Disk Handle}
    (hopen : Disk.openFile options path w.disk = Disk.attach path d)
    (turns : List (Nat × List Deed))
    (hanswer : (pauses options path w turns).foldl (Disk.retry options path)
      (Disk.attempt options path elapsed d) = .answered r) :
    ∃ n ≤ turns.length,
      r = Disk.openFile options path (w.run (attempts options path (turns.take n))).disk := by
  induction turns generalizing w d elapsed with
  | nil => exact ⟨0, le_rfl, (hopen.trans (Disk.attempt_answered hanswer).1).symm⟩
  | cons turn rest ih =>
    obtain ⟨late, deeds⟩ := turn
    rcases Disk.attempt_cases options path elapsed d with ⟨hheld, -, hwaiting⟩ | ⟨hlast, -⟩
    · -- The attempt is a deed that has done nothing more, and the file stays where it is.
      have hstep : w.step (.openFile options path) = ⟨d, w.handles⟩ := by
        rw [Shared.step, hopen, hheld]
        rfl
      obtain ⟨-, -, place, ts, n, hfile⟩ := Disk.held_of_attach hheld
      obtain ⟨us, holder, hnext⟩ := fileAt_run (w := ⟨d, w.handles⟩) hfile deeds
      rw [← hstep] at hnext
      rw [hwaiting] at hanswer
      obtain ⟨n, hn, hr⟩ := ih (Disk.openFile_of_exists hnext.fileExists options) hanswer
      refine ⟨n + 1, Nat.succ_le_succ hn, hr.trans ?_⟩
      rw [← run_append]
      rfl
    · rw [hlast, Disk.foldl_retry_answered] at hanswer
      exact ⟨0, Nat.zero_le _, (hopen.trans (Disk.Opening.answered.inj hanswer)).symm⟩

/-- **Among others an opening is a run of deeds**: what it answers is what an attempt answers after
    attempts in vain and what the others have done after each. -/
theorem awaitFile_run {horizon took : Nat} {turns : List (Nat × List Deed)}
    {r : EStateM.Result StorageError Disk Handle}
    (hanswer : Disk.awaitFile options path ⟨horizon, took, pauses options path w turns⟩ w.disk =
      .answered r) :
    ∃ n ≤ turns.length,
      r = Disk.openFile options path (w.run (attempts options path (turns.take n))).disk := by
  rcases Disk.awaitFile_answered hanswer with ⟨e, d, herror, rfl⟩ | ⟨d, hprepare, hlast⟩
  · exact ⟨0, Nat.zero_le _, (bind_of_error herror _).symm⟩
  · exact foldl_retry_run (bind_of_ok hprepare _) turns hlast

/-- **Each file has one holder at most also where openings wait**: when one has answered, the
    handle that it has been given, if any, is one among those that have been given out. -/
theorem Tended.awaitFile (hw : w.Tended) {horizon took : Nat} {turns : List (Nat × List Deed)}
    {r : EStateM.Result StorageError Disk Handle}
    (hanswer : Disk.awaitFile options path ⟨horizon, took, pauses options path w turns⟩ w.disk =
      .answered r) :
    ∃ n ≤ turns.length, OneHolder ((w.run (attempts options path (turns.take n))).given id r) := by
  obtain ⟨n, hn, rfl⟩ := awaitFile_run hanswer
  exact ⟨n, hn, ((hw.run _).step (.openFile options path)).oneHolder⟩

end Shared

end TableVault
