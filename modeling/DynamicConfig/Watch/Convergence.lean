import DynamicConfig.Transition.Run
import DynamicConfig.Watch.Coverage
import DynamicConfig.Watch.Debounce
import Mathlib.Data.List.Perm.Basic

/-!
# What serves when the watch is idle

The watcher's thread sleeps until a relevant message comes, waits out the flurry, loads, and sleeps
again. Meanwhile the disk changes at any time, also between two files of one load, and other threads
install what they loaded themselves. A load is what it reads, one file after the other (`Reads`), so it
can see some files before a change and others after it.

Messages are received in any order, and what waits in the channel while the thread is busy stays there.
`Convergent` is what every move keeps: a load that missed a change has a relevant message still to come.
So where the watcher is idle and none is, its last load is of the disk as it is (`idle_converged`), and
no load is without a cause (`reloads_caused`).

How long the flurry is waited out does not matter for either: the thread may stop at any time after the
first relevant message. `run_of_collectRelevant` is that the timed loop is one such way. Where the clock
has no instant as far as the thread is to wait, the thread panics (`run_of_panicked`), and that is the
only end it comes to while the handle is held: otherwise its moves lead it back to an empty channel
(`converges_alone`).
-/

namespace DynamicConfig.Convergence

open Debounce (Message Arrival Clock Collected collectRelevant settle)
open Transition
open DynamicConfig.Units (Duration)
open UnixPath (Path)

variable {D V : Type}

/-! ### Loads -/

/-- What is at each path. -/
abbrev Disk (D : Type) := Path → Option D

/-- A load by what it reads, in the order it reads it. -/
inductive Reads (D V : Type) where
  | done (outcome : Except Error V)
  | read (path : Path) (next : Option D → Reads D V)

namespace Reads

/-- The load of a disk that does not change meanwhile. -/
def eval (disk : Disk D) : Reads D V → Except Error V
  | done outcome => outcome
  | read path next => (next (disk path)).eval disk

/-- Everything a load may read is a path of some kind. -/
inductive Within (seen : Path → Prop) : Reads D V → Prop
  | done (outcome : Except Error V) : Within seen (.done outcome)
  | read {path : Path} {next : Option D → Reads D V} (hseen : seen path)
    (hnext : ∀ content, Within seen (next content)) : Within seen (.read path next)

/-- What is not read does not matter. -/
theorem Within.eval_congr {seen : Path → Prop} {load : Reads D V} (h : load.Within seen)
    {disk disk' : Disk D} (hsame : ∀ path, seen path → disk path = disk' path) :
    load.eval disk = load.eval disk' := by
  induction h with
  | done outcome => rfl
  | read hseen hnext ih => rw [eval, eval, hsame _ hseen, ih]

/-- The load that reads some files and makes something of their contents. -/
def ofPaths : List Path → (List (Option D) → Except Error V) → Reads D V
  | [], make => .done (make [])
  | path :: paths, make =>
    .read path fun content ↦ ofPaths paths fun contents ↦ make (content :: contents)

theorem within_ofPaths {seen : Path → Prop} {paths : List Path} (h : ∀ path ∈ paths, seen path)
    (make : List (Option D) → Except Error V) : (ofPaths paths make).Within seen := by
  induction paths generalizing make with
  | nil => exact .done _
  | cons path paths ih =>
    refine .read (h path List.mem_cons_self) fun content ↦ ih (fun other hother ↦ ?_) _
    exact h other (List.mem_cons_of_mem path hother)

end Reads

/-! ### The watcher and its disk -/

/-- Where the watcher's thread is. -/
inductive Point (D V : Type) where
  | waiting
  /-- A relevant message came, about this path. -/
  | settling (trigger : Path)
  | loading (trigger : Path) (rest : Reads D V)
  | ended
  | panicked

/-- What was installed, or tried to be. -/
inductive Entry (V : Type) where
  /-- The watcher's own load. A failure keeps what serves. -/
  | reloaded (trigger : Path) (outcome : Except Error V)
  /-- Another thread's. -/
  | installed (value : V)

/-- A disk, the channel, the watcher's thread and what it shares its cell with. -/
structure State (D V : Type) where
  disk : Disk D
  queue : List Message
  /-- Whether the handle is held. -/
  watching : Bool
  point : Point D V
  /-- The newest first. -/
  log : List (Entry V)
  /-- Everything the backend put into the channel. -/
  sent : List Message

/-- What happens. -/
inductive Event (D V : Type) where
  /-- The disk changes, and the backend reports it. -/
  | change (disk : Disk D) (reports : List Message)
  /-- The thread receives one of the messages. -/
  | receive (n : ℕ)
  /-- It receives a relevant one, and the clock has no instant as far as it is to wait. -/
  | panic (n : ℕ)
  /-- The flurry is over. -/
  | ripe
  /-- The load reads its next file. -/
  | read
  /-- The load is over. -/
  | finish
  | install (value : V)
  /-- The handle is dropped. -/
  | drop
  /-- The thread finds the channel closed. -/
  | disconnect

/-- Where a watch begins. -/
def State.start (disk : Disk D) : State D V := ⟨disk, [], true, .waiting, [], []⟩

/-- The last load's outcome, where the first is what serves when the watch begins. -/
def lastLoad (served : V) : List (Entry V) → Except Error V
  | [] => .ok served
  | .reloaded _ outcome :: _ => outcome
  | .installed _ :: log => lastLoad served log

/-- What serves. -/
def serving (served : V) : List (Entry V) → V
  | [] => served
  | .reloaded _ (.ok value) :: _ => value
  | .reloaded _ (.error _) :: log => serving served log
  | .installed value :: _ => value

variable (load : Reads D V) (watched : Watched)

/-- One move. -/
def step (s : State D V) : Event D V → Option (State D V)
  | .change disk reports =>
    if s.watching then
      some { s with disk, queue := s.queue ++ reports, sent := s.sent ++ reports }
    else some { s with disk }
  | .receive n =>
    match s.point, s.queue[n]? with
    | .waiting, some message =>
      match message.relevant watched with
      | some trigger => some { s with queue := s.queue.eraseIdx n, point := .settling trigger }
      | none => some { s with queue := s.queue.eraseIdx n }
    | .settling _, some _ => some { s with queue := s.queue.eraseIdx n }
    | _, _ => none
  | .panic n =>
    match s.point, s.queue[n]? with
    | .waiting, some message | .settling _, some message =>
      if (message.relevant watched).isSome then
        some { s with queue := s.queue.eraseIdx n, point := .panicked }
      else none
    | _, _ => none
  | .ripe =>
    match s.point with
    | .settling trigger => some { s with point := .loading trigger load }
    | _ => none
  | .read =>
    match s.point with
    | .loading trigger (.read path next) =>
      some { s with point := .loading trigger (next (s.disk path)) }
    | _ => none
  | .finish =>
    match s.point with
    | .loading trigger (.done outcome) =>
      some { s with point := .waiting, log := .reloaded trigger outcome :: s.log }
    | _ => none
  | .install value => some { s with log := .installed value :: s.log }
  | .drop => some { s with watching := false }
  | .disconnect =>
    match s.watching, s.queue, s.point with
    | false, [], .waiting | false, [], .settling _ => some { s with point := .ended }
    | _, _, _ => none

/-! ### What a move can do -/

/-- Whether a message is about our files. -/
def isRelevant (message : Message) : Bool := (message.relevant watched).isSome

/-- What a move can do, by what happens. -/
inductive Moves (s : State D V) : Event D V → State D V → Prop where
  | reported (hwatching : s.watching = true) (disk : Disk D) (reports : List Message) :
    Moves s (.change disk reports)
      { s with disk, queue := s.queue ++ reports, sent := s.sent ++ reports }
  | unreported (hwatching : s.watching = false) (disk : Disk D) (reports : List Message) :
    Moves s (.change disk reports) { s with disk }
  | noticed (hpoint : s.point = .waiting) {n : ℕ} {message : Message}
    (hn : s.queue[n]? = some message) {trigger : Path}
    (htrigger : message.relevant watched = some trigger) :
    Moves s (.receive n) { s with queue := s.queue.eraseIdx n, point := .settling trigger }
  | ignored (hpoint : s.point = .waiting) {n : ℕ} {message : Message}
    (hn : s.queue[n]? = some message) (hirrelevant : isRelevant watched message = false) :
    Moves s (.receive n) { s with queue := s.queue.eraseIdx n }
  | settled {trigger : Path} (hpoint : s.point = .settling trigger) {n : ℕ} {message : Message}
    (hn : s.queue[n]? = some message) : Moves s (.receive n) { s with queue := s.queue.eraseIdx n }
  | panicked {n : ℕ} {message : Message} (hn : s.queue[n]? = some message)
    (hrelevant : isRelevant watched message = true) :
    Moves s (.panic n) { s with queue := s.queue.eraseIdx n, point := .panicked }
  | ripe {trigger : Path} (hpoint : s.point = .settling trigger) :
    Moves s .ripe { s with point := .loading trigger load }
  | read {trigger path : Path} {next : Option D → Reads D V}
    (hpoint : s.point = .loading trigger (.read path next)) :
    Moves s .read { s with point := .loading trigger (next (s.disk path)) }
  | finished {trigger : Path} {outcome : Except Error V}
    (hpoint : s.point = .loading trigger (.done outcome)) :
    Moves s .finish { s with point := .waiting, log := .reloaded trigger outcome :: s.log }
  | installed (value : V) : Moves s (.install value) { s with log := .installed value :: s.log }
  | dropped : Moves s .drop { s with watching := false }
  | ended (hwatching : s.watching = false) (hqueue : s.queue = []) :
    Moves s .disconnect { s with point := .ended }

/-- **Every move is one of these.** -/
theorem moves_of_step {s t : State D V} {e : Event D V} (h : step load watched s e = some t) :
    Moves load watched s e t := by
  cases e with
  | change disk reports =>
    simp only [step] at h
    split at h
    · next hwatching =>
      cases h
      exact .reported hwatching disk reports
    · next hwatching =>
      cases h
      exact .unreported (by simpa using hwatching) disk reports
  | receive n =>
    simp only [step] at h
    split at h
    · next message hpoint hn =>
      split at h
      · next trigger htrigger =>
        cases h
        exact .noticed hpoint hn htrigger
      · next hnone =>
        cases h
        exact .ignored hpoint hn (by simp [isRelevant, hnone])
    · next trigger message hpoint hn =>
      cases h
      exact .settled hpoint hn
    · cases h
  | panic n =>
    simp only [step] at h
    split at h
    · next message hpoint hn =>
      split at h
      · next hrelevant =>
        cases h
        exact .panicked hn hrelevant
      · cases h
    · next trigger message hpoint hn =>
      split at h
      · next hrelevant =>
        cases h
        exact .panicked hn hrelevant
      · cases h
    · cases h
  | ripe =>
    simp only [step] at h
    split at h
    · next trigger hpoint =>
      cases h
      exact .ripe hpoint
    · cases h
  | read =>
    simp only [step] at h
    split at h
    · next trigger path next hpoint =>
      cases h
      exact .read hpoint
    · cases h
  | finish =>
    simp only [step] at h
    split at h
    · next trigger outcome hpoint =>
      cases h
      exact .finished hpoint
    · cases h
  | install value =>
    cases h
    exact .installed value
  | drop =>
    cases h
    exact .dropped
  | disconnect =>
    simp only [step] at h
    split at h
    · next hwatching hqueue _ =>
      cases h
      exact .ended hwatching hqueue
    · next hwatching hqueue _ =>
      cases h
      exact .ended hwatching hqueue
    · cases h

/-! ### Convergence -/

/-- Whether a path is one the watcher looks for. -/
def Ours (path : Path) : Prop := isOurs path watched = true

instance (path : Path) : Decidable (Ours watched path) :=
  inferInstanceAs (Decidable (isOurs path watched = true))

/-- A change of one of our files is reported, as long as the watch is held. -/
def Reported (s : State D V) : Event D V → Prop
  | .change disk reports =>
    s.watching = true → (∃ path, Ours watched path ∧ disk path ≠ s.disk path) →
      ∃ message ∈ reports, isRelevant watched message = true
  | _ => True

/-- A relevant message is still to be received. -/
def Pending (s : State D V) : Prop := ∃ message ∈ s.queue, isRelevant watched message = true

/-- A load that missed a change will be made again. -/
structure Convergent (served : V) (s : State D V) : Prop where
  idle : s.watching = true → s.point = .waiting →
    lastLoad served s.log = load.eval s.disk ∨ Pending watched s
  loading : ∀ trigger rest, s.point = .loading trigger rest → rest.Within (Ours watched) ∧
    (s.watching = true → rest.eval s.disk = load.eval s.disk ∨ Pending watched s)

variable {load watched} {served : V}

/-- A watch that sees what a specification's load reads is one whose load is within it. -/
theorem within_reads {host : Host} {spec : LoadSpec} {cwd : List (List Char)}
    (h : SeesReads host spec cwd) (make : List (Option D) → Except Error V) :
    (Reads.ofPaths ((reads host spec).map fun path ↦ UnixPath.absolute cwd (UnixPath.parse path.toList))
      make).Within (Ours (Watched.fromSpec host spec)) := by
  refine Reads.within_ofPaths (fun changed hchanged ↦ ?_) make
  obtain ⟨path, hpath, rfl⟩ := List.mem_map.1 hchanged
  exact (isOurs_iff host spec (UnixPath.head?_absolute cwd _)).2
    ((seesReads_iff_seen host spec cwd).1 h path hpath)

/-- What was irrelevant is not missed. -/
theorem Pending.eraseIdx {s t : State D V} (h : Pending watched s) {n : ℕ} {message : Message}
    (hn : s.queue[n]? = some message) (hirrelevant : isRelevant watched message = false)
    (hqueue : t.queue = s.queue.eraseIdx n) : Pending watched t := by
  obtain ⟨other, hother, hrelevant⟩ := h
  refine ⟨other, ?_, hrelevant⟩
  obtain ⟨i, hi⟩ := List.mem_iff_getElem?.1 hother
  rw [hqueue, List.mem_eraseIdx_iff_getElem?]
  refine ⟨i, fun hin ↦ ?_, hi⟩
  rw [hin, hn] at hi
  rw [← Option.some.inj hi, hirrelevant] at hrelevant
  cases hrelevant

/-- A change is seen by no load that has it behind it, or it is reported. -/
theorem Reported.eval_eq {s : State D V} {disk : Disk D} {reports : List Message}
    (h : Reported watched s (.change disk reports)) (hwatching : s.watching = true)
    {rest : Reads D V} (hrest : rest.Within (Ours watched)) :
    rest.eval disk = rest.eval s.disk ∨
      ∃ message ∈ s.queue ++ reports, isRelevant watched message = true := by
  by_cases hchanged : ∃ path, Ours watched path ∧ disk path ≠ s.disk path
  · obtain ⟨message, hmessage, hrelevant⟩ := h hwatching hchanged
    exact .inr ⟨message, List.mem_append_right _ hmessage, hrelevant⟩
  · refine .inl (hrest.eval_congr fun path hseen ↦ ?_)
    by_contra hne
    exact hchanged ⟨path, hseen, hne⟩

/-- **One move keeps the watch convergent.** -/
theorem Convergent.moves (hload : load.Within (Ours watched)) {s t : State D V} {e : Event D V}
    (hreported : Reported watched s e) (hmoves : Moves load watched s e t)
    (h : Convergent load watched served s) : Convergent load watched served t := by
  cases hmoves with
  | reported hwatching disk reports =>
    have hpending : Pending watched s → ∃ message ∈ s.queue ++ reports,
        isRelevant watched message = true := by
      rintro ⟨message, hmessage, hrelevant⟩
      exact ⟨message, List.mem_append_left _ hmessage, hrelevant⟩
    refine ⟨fun _ hpoint ↦ ?_, fun trigger rest hpoint ↦ ?_⟩
    · rcases h.idle hwatching hpoint with hlast | hcoming
      · rcases hreported.eval_eq hwatching hload with hsame | hcoming
        · exact .inl (hlast.trans hsame.symm)
        · exact .inr hcoming
      · exact .inr (hpending hcoming)
    · obtain ⟨hwithin, hrest⟩ := h.loading trigger rest hpoint
      refine ⟨hwithin, fun _ ↦ ?_⟩
      rcases hrest hwatching with heval | hcoming
      · rcases hreported.eval_eq hwatching hload with hsame | hcoming
        · rcases hreported.eval_eq hwatching hwithin with hsame' | hcoming
          · exact .inl (hsame'.trans (heval.trans hsame.symm))
          · exact .inr hcoming
        · exact .inr hcoming
      · exact .inr (hpending hcoming)
  | unreported hwatching disk reports =>
    refine ⟨fun hheld ↦ absurd (hheld.symm.trans hwatching) (by simp), fun trigger rest hpoint ↦ ?_⟩
    refine ⟨(h.loading trigger rest hpoint).1, fun hheld ↦ ?_⟩
    exact absurd (hheld.symm.trans hwatching) (by simp)
  | noticed => exact ⟨fun _ hpoint ↦ (by cases hpoint), fun _ _ hpoint ↦ (by cases hpoint)⟩
  | ignored hwaiting hn hirrelevant =>
    refine ⟨fun hwatching hpoint ↦ ?_, fun trigger rest hpoint ↦ ?_⟩
    · exact (h.idle hwatching hpoint).imp_right fun hcoming ↦ hcoming.eraseIdx hn hirrelevant rfl
    · rw [hwaiting] at hpoint
      cases hpoint
  | settled hsettling =>
    refine ⟨fun _ hpoint ↦ ?_, fun trigger rest hpoint ↦ ?_⟩
    all_goals
      rw [hsettling] at hpoint
      cases hpoint
  | panicked => exact ⟨fun _ hpoint ↦ (by cases hpoint), fun _ _ hpoint ↦ (by cases hpoint)⟩
  | ripe =>
    -- A load that begins now has everything before it still to read.
    refine ⟨fun _ hpoint ↦ (by cases hpoint), fun trigger rest hpoint ↦ ?_⟩
    obtain ⟨rfl, rfl⟩ := Point.loading.inj hpoint
    exact ⟨hload, fun _ ↦ .inl rfl⟩
  | read hloading =>
    refine ⟨fun _ hpoint ↦ (by cases hpoint), fun trigger rest hpoint ↦ ?_⟩
    obtain ⟨rfl, rfl⟩ := Point.loading.inj hpoint
    obtain ⟨hwithin, hrest⟩ := h.loading _ _ hloading
    cases hwithin with
    | read hseen hnext => exact ⟨hnext _, hrest⟩
  | finished hloading =>
    refine ⟨fun hwatching _ ↦ ?_, fun trigger rest hpoint ↦ (by cases hpoint)⟩
    exact (h.loading _ _ hloading).2 hwatching
  | installed => exact ⟨h.idle, h.loading⟩
  | dropped =>
    refine ⟨fun hwatching ↦ (by cases hwatching), fun trigger rest hpoint ↦ ?_⟩
    exact ⟨(h.loading trigger rest hpoint).1, fun hwatching ↦ (by cases hwatching)⟩
  | ended => exact ⟨fun _ hpoint ↦ (by cases hpoint), fun _ _ hpoint ↦ (by cases hpoint)⟩

theorem convergent_start {disk : Disk D} (hserved : load.eval disk = .ok served) :
    Convergent load watched served (State.start disk) :=
  ⟨fun _ _ ↦ .inl hserved.symm, fun _ _ hpoint ↦ (by cases hpoint)⟩

/-- A last load that succeeded serves, unless another thread installed after it. -/
theorem serving_of_lastLoad {log : List (Entry V)} {value : V}
    (h : lastLoad served log = .ok value) (hlast : ∀ other older, log ≠ .installed other :: older) :
    serving served log = value := by
  match log with
  | [] => exact Except.ok.inj h
  | .reloaded trigger outcome :: older =>
    rw [lastLoad] at h
    rw [h]
    rfl
  | .installed other :: older => exact absurd rfl (hlast other older)

/-- Whether what is reported of a change is relevant. -/
def Event.reports (watched : Watched) : Event D V → Bool
  | .change _ reports => reports.any (isRelevant watched)
  | _ => true

/-- A run whose changes are all reported as relevant is one whose changes of our files are. -/
theorem along_reported {s : State D V} {events : List (Event D V)}
    (h : ∀ e ∈ events, e.reports watched = true) :
    Along (step load watched) (Reported watched) s events := by
  refine along_of_invariant (I := fun _ ↦ True) (Q := fun e ↦ e.reports watched = true)
    (fun _ _ _ _ _ _ ↦ trivial) (fun s e he _ ↦ ?_) h trivial
  cases e with
  | change disk reports =>
    intro _ _
    obtain ⟨message, hmessage, hrelevant⟩ := List.any_eq_true.1 he
    exact ⟨message, hmessage, hrelevant⟩
  | receive | panic | ripe | read | finish | install | drop | disconnect => trivial

/-- **Where the watch is idle, it has seen the disk as it is.** In every run in which the changes of our
files are reported, whatever else is reported, in whatever order the messages are received, and however
the disk changes while a load is reading it: when the thread waits and no relevant message is left, its
last load is of the disk as it is, and what that gives is what serves, unless the load is a failure or
another thread installed after it. -/
theorem idle_converged (load : Reads D V) (watched : Watched) (served : V) (disk : Disk D)
    (events : List (Event D V)) (s : State D V) (hload : load.Within (Ours watched))
    (hserved : load.eval disk = .ok served)
    (hreported : Along (step load watched) (Reported watched) (State.start disk) events)
    (h : run (step load watched) (State.start disk) events = some s) (hwatching : s.watching = true)
    (hidle : s.point = .waiting) (hquiet : ∀ message ∈ s.queue, isRelevant watched message = false) :
    lastLoad served s.log = load.eval s.disk ∧
      ∀ value, load.eval s.disk = .ok value → (∀ other older, s.log ≠ .installed other :: older) →
        serving served s.log = value := by
  have hconvergent : Convergent load watched served s :=
    run_invariant_along (fun _ _ _ hmeets hstep hs ↦ hs.moves hload hmeets (moves_of_step _ _ hstep))
      hreported h (convergent_start hserved)
  have hlast : lastLoad served s.log = load.eval s.disk := by
    rcases hconvergent.idle hwatching hidle with hlast | ⟨message, hmessage, hrelevant⟩
    · exact hlast
    · rw [hquiet message hmessage] at hrelevant
      cases hrelevant
  exact ⟨hlast, fun value hvalue hother ↦ serving_of_lastLoad (hlast.trans hvalue) hother⟩

section Torn

/-- Two files of one configuration. -/
def base : Path := [.rootDir, .normal "base.toml".toList]
def site : Path := [.rootDir, .normal "site.toml".toList]

/-- What looks at the two files. -/
def both : Watched := ⟨[base, site], none, []⟩

/-- The load of the two, which makes a pair of them. -/
def loadBoth : Reads ℕ (List (Option ℕ)) := .ofPaths [base, site] .ok

/-- A disk with a number in each. -/
def numbers (m n : ℕ) : Disk ℕ := fun path ↦
  if path = base then some m else if path = site then some n else none

/-- What the backend says of a written file. -/
def written (path : Path) : List Message := [.event ⟨.modify, [path]⟩]

/-- The second change comes between the two files of a load, which sees a pair that was never there. The
message of that change is left, and the next load mends it. -/
def torn : List (Event ℕ (List (Option ℕ))) :=
  [.change (numbers 2 1) (written base), .receive 0, .ripe, .read,
    .change (numbers 3 3) (written base ++ written site), .read, .finish,
    .receive 0, .receive 0, .ripe, .read, .read, .finish]

theorem loadBoth_within : loadBoth.Within (Ours both) :=
  Reads.within_ofPaths (by decide) _

theorem idle_converged_torn :
    ∃ s, run (step loadBoth both) (State.start (numbers 1 1)) torn = some s ∧
      s.log = [.reloaded base (.ok [some 3, some 3]), .reloaded base (.ok [some 2, some 3])] ∧
      (lastLoad [some 1, some 1] s.log = loadBoth.eval s.disk ∧
        ∀ value, loadBoth.eval s.disk = .ok value →
          (∀ other older, s.log ≠ .installed other :: older) →
            serving [some 1, some 1] s.log = value) :=
  ⟨_, rfl, rfl, idle_converged loadBoth both [some 1, some 1] (numbers 1 1) torn _ loadBoth_within rfl
    (along_reported (by decide)) rfl rfl rfl (by decide)⟩

end Torn

/-! ### Left alone -/

/-- What the watcher's thread does on its own, as long as the clock has the instants it waits for. -/
def Event.isOwn : Event D V → Bool
  | .receive _ | .ripe | .read | .finish => true
  | .change _ _ | .panic _ | .install _ | .drop | .disconnect => false

/-- The thread comes from one state to another on its own, on a disk that does not change. -/
def Reaches (load : Reads D V) (watched : Watched) (s t : State D V) : Prop :=
  ∃ events : List (Event D V), (∀ e ∈ events, e.isOwn = true) ∧
    run (step load watched) s events = some t

/-- What a move of its own leaves: the disk and the handle as they were, and what is in the channel or
less. -/
theorem kept_of_own {s t : State D V} {e : Event D V} (hown : e.isOwn = true)
    (hstep : step load watched s e = some t) :
    t.disk = s.disk ∧ t.watching = s.watching ∧ (s.point ≠ .ended ∧ s.point ≠ .panicked →
      t.point ≠ .ended ∧ t.point ≠ .panicked) := by
  have hmoves := moves_of_step load watched hstep
  cases hmoves with
  | reported | unreported | panicked | installed | dropped | ended => cases hown
  | ignored | settled => exact ⟨rfl, rfl, fun halive ↦ halive⟩
  | noticed | ripe | read | finished => exact ⟨rfl, rfl, fun _ ↦ ⟨by simp, by simp⟩⟩

/-- The same of all the thread does on its own, if it has neither ended nor panicked. -/
theorem kept_of_reaches {s t : State D V} (hreaches : Reaches load watched s t)
    (hended : s.point ≠ .ended) (hpanicked : s.point ≠ .panicked) :
    t.disk = s.disk ∧ t.watching = s.watching ∧ t.point ≠ .ended ∧ t.point ≠ .panicked := by
  obtain ⟨own, hown, hrun⟩ := hreaches
  refine run_invariant_of (I := fun u : State D V ↦ u.disk = s.disk ∧ u.watching = s.watching ∧
    u.point ≠ .ended ∧ u.point ≠ .panicked) (fun u e v he hstep hu ↦ ?_) hown hrun
    ⟨rfl, rfl, hended, hpanicked⟩
  obtain ⟨hdisk, hheld, halive⟩ := kept_of_own he hstep
  exact ⟨hdisk.trans hu.1, hheld.trans hu.2.1, halive hu.2.2⟩

/-- On its own the thread changes no file, so there is nothing to report. -/
theorem Convergent.alone {s t : State D V} (h : Convergent load watched served s)
    (hload : load.Within (Ours watched)) (hreaches : Reaches load watched s t) :
    Convergent load watched served t := by
  have hquiet : ∀ (s : State D V) (e : Event D V), e.isOwn = true → Reported watched s e := by
    intro s e he
    cases e with
    | change => cases he
    | receive | panic | ripe | read | finish | install | drop | disconnect => trivial
  obtain ⟨own, hown, hrun⟩ := hreaches
  exact run_invariant_of (fun s e _ hown hstep hs ↦
    hs.moves hload (hquiet s e hown) (moves_of_step _ _ hstep)) hown hrun h

/-- A message that is received is in the channel no more. -/
theorem length_eraseIdx_lt {queue : List Message} {n : ℕ} {message : Message}
    (hn : queue[n]? = some message) : (queue.eraseIdx n).length < queue.length := by
  obtain ⟨hlt, -⟩ := List.getElem?_eq_some_iff.1 hn
  rw [List.length_eraseIdx_of_lt hlt]
  omega

/-- **The thread's own moves come to an end.** The induction is over what is in the channel; with the
channel as it is a load goes on down its tree, and a flurry comes to its load. -/
theorem acc_own (load : Reads D V) (watched : Watched) (n : ℕ) (s : State D V)
    (hqueue : s.queue.length = n) : Acc (After (step load watched) Event.isOwn) s := by
  induction n using Nat.strong_induction_on generalizing s with
  | _ n ih =>
    have hreceived : ∀ {s : State D V}, s.queue.length = n → ∀ {m : ℕ} {message : Message},
        s.queue[m]? = some message → ∀ point : Point D V,
          Acc (After (step load watched) Event.isOwn)
            { s with queue := s.queue.eraseIdx m, point } := by
      intro s hqueue m message hm point
      exact ih _ (hqueue ▸ length_eraseIdx_lt hm) _ rfl
    have hwaiting : ∀ s : State D V, s.queue.length = n → s.point = .waiting →
        Acc (After (step load watched) Event.isOwn) s := by
      intro s hqueue hpoint
      refine .intro s fun t ⟨e, hown, hstep⟩ ↦ ?_
      cases moves_of_step load watched hstep with
      | noticed _ hm _ => exact hreceived hqueue hm _
      | ignored _ hm _ => exact hreceived hqueue hm s.point
      | settled hsettling | ripe hsettling | read hsettling | finished hsettling =>
        rw [hpoint] at hsettling
        cases hsettling
      | reported | unreported | panicked | installed | dropped | ended => cases hown
    have hloading : ∀ (rest : Reads D V) (s : State D V) (trigger : Path), s.queue.length = n →
        s.point = .loading trigger rest → Acc (After (step load watched) Event.isOwn) s := by
      intro rest
      induction rest with
      | done outcome =>
        intro s trigger hqueue hpoint
        refine .intro s fun t ⟨e, hown, hstep⟩ ↦ ?_
        cases moves_of_step load watched hstep with
        | finished => exact hwaiting _ hqueue rfl
        | noticed hother | ignored hother | settled hother | ripe hother | read hother =>
          rw [hpoint] at hother
          cases hother
        | reported | unreported | panicked | installed | dropped | ended => cases hown
      | read path next ihnext =>
        intro s trigger hqueue hpoint
        refine .intro s fun t ⟨e, hown, hstep⟩ ↦ ?_
        cases moves_of_step load watched hstep with
        | read hread =>
          rw [hpoint] at hread
          obtain ⟨rfl, hrest⟩ := Point.loading.inj hread
          obtain ⟨rfl, rfl⟩ := Reads.read.inj hrest
          exact ihnext (s.disk path) _ trigger hqueue rfl
        | noticed hother | ignored hother | settled hother | ripe hother | finished hother =>
          rw [hpoint] at hother
          cases hother
        | reported | unreported | panicked | installed | dropped | ended => cases hown
    refine .intro s fun t ⟨e, hown, hstep⟩ ↦ ?_
    cases moves_of_step load watched hstep with
    | noticed _ hm _ => exact hreceived hqueue hm _
    | ignored _ hm _ => exact hreceived hqueue hm s.point
    | settled _ hm => exact hreceived hqueue hm s.point
    | ripe => exact hloading load _ _ hqueue rfl
    | @read trigger path next hread => exact hloading (next (s.disk path)) _ trigger hqueue rfl
    | finished => exact hwaiting _ hqueue rfl
    | reported | unreported | panicked | installed | dropped | ended => cases hown

/-- A thread that is alive and has no move left waits, with nothing in the channel. -/
theorem waiting_of_stuck {t : State D V} (halive : t.point ≠ .ended ∧ t.point ≠ .panicked)
    (hstuck : ∀ e : Event D V, e.isOwn = true → step load watched t e = none) :
    t.point = .waiting ∧ t.queue = [] := by
  match hpoint : t.point with
  | .waiting =>
    refine ⟨rfl, List.eq_nil_iff_forall_not_mem.2 fun message hmessage ↦ ?_⟩
    obtain ⟨n, hn⟩ := List.mem_iff_getElem?.1 hmessage
    have hnone := hstuck (.receive n) rfl
    cases hrelevant : message.relevant watched with
    | none => simp [step, hpoint, hn, hrelevant] at hnone
    | some trigger => simp [step, hpoint, hn, hrelevant] at hnone
  | .settling trigger =>
    have hnone := hstuck .ripe rfl
    simp [step, hpoint] at hnone
  | .loading trigger (.read path next) =>
    have hnone := hstuck .read rfl
    simp [step, hpoint] at hnone
  | .loading trigger (.done outcome) =>
    have hnone := hstuck .finish rfl
    simp [step, hpoint] at hnone
  | .ended => exact absurd hpoint halive.1
  | .panicked => exact absurd hpoint halive.2

/-- The thread ends only when the handle was dropped. -/
theorem watching_eq_false_of_ended {events : List (Event D V)} {disk : Disk D} {s : State D V}
    (h : run (step load watched) (State.start disk) events = some s) :
    s.point = .ended → s.watching = false := by
  refine run_invariant (I := fun s : State D V ↦ s.point = .ended → s.watching = false)
    (fun s e t hstep hs ↦ ?_) h fun hpoint ↦ (by cases hpoint)
  have hmoves := moves_of_step load watched hstep
  cases hmoves with
  | reported | unreported | ignored | settled | installed => exact hs
  | noticed | panicked | ripe | read | finished => exact fun hpoint ↦ (by cases hpoint)
  | dropped => exact fun _ ↦ rfl
  | ended hwatching => exact fun _ ↦ hwatching

/-- **Left alone, the watch catches up.** From every state a run reaches while the handle is held, and in
which the thread has not panicked, its own moves come to an end, whichever it takes, so they lead to where
none is left; and there it waits with nothing in the channel, and its last load is of the disk as it is. -/
theorem converges_alone (load : Reads D V) (watched : Watched) (served : V) (disk : Disk D)
    (events : List (Event D V)) (s : State D V) (hload : load.Within (Ours watched))
    (hserved : load.eval disk = .ok served)
    (hreported : Along (step load watched) (Reported watched) (State.start disk) events)
    (h : run (step load watched) (State.start disk) events = some s) (hwatching : s.watching = true)
    (hpanicked : s.point ≠ .panicked) :
    Acc (After (step load watched) Event.isOwn) s ∧
      (∃ t, Reaches load watched s t ∧
        ∀ e : Event D V, e.isOwn = true → step load watched t e = none) ∧
      ∀ t, Reaches load watched s t →
        (∀ e : Event D V, e.isOwn = true → step load watched t e = none) →
          t.point = .waiting ∧ t.queue = [] ∧ lastLoad served t.log = load.eval s.disk := by
  have hends : Acc (After (step load watched) Event.isOwn) s := acc_own load watched _ s rfl
  obtain ⟨own, t, hown, hrun, hstuck⟩ := exists_stuck hends
  refine ⟨hends, ⟨t, ⟨own, hown, hrun⟩, hstuck⟩, fun t hreaches hstuck ↦ ?_⟩
  have hended : s.point ≠ .ended := by
    intro hended
    rw [watching_eq_false_of_ended h hended] at hwatching
    cases hwatching
  have hconvergent : Convergent load watched served s :=
    run_invariant_along (fun _ _ _ hmeets hstep hs ↦ hs.moves hload hmeets (moves_of_step _ _ hstep))
      hreported h (convergent_start hserved)
  obtain ⟨hdisk, hheld, halive⟩ := kept_of_reaches hreaches hended hpanicked
  obtain ⟨hidle, hempty⟩ := waiting_of_stuck halive hstuck
  refine ⟨hidle, hempty, ?_⟩
  rcases (hconvergent.alone hload hreaches).idle (hheld.trans hwatching) hidle with
    hlast | ⟨message, hmessage, -⟩
  · rw [hlast, hdisk]
  · rw [hempty] at hmessage
    cases hmessage

/-- From a change that no load has seen yet. -/
theorem converges_alone_torn :
    ∃ s, run (step loadBoth both) (State.start (numbers 1 1)) (torn.take 6) = some s ∧
      (∃ trigger rest, s.point = .loading trigger rest) ∧
        ∃ t, Reaches loadBoth both s t ∧ t.point = .waiting ∧ t.queue = [] ∧
          lastLoad [some 1, some 1] t.log = loadBoth.eval s.disk := by
  obtain ⟨s, hrun, hwatching, trigger, rest, hpoint⟩ : ∃ s,
      run (step loadBoth both) (State.start (numbers 1 1)) (torn.take 6) = some s ∧
        s.watching = true ∧ ∃ trigger rest, s.point = .loading trigger rest :=
    ⟨_, rfl, rfl, _, _, rfl⟩
  have halive : s.point ≠ .panicked := by
    rw [hpoint]
    exact fun h ↦ by cases h
  obtain ⟨-, ⟨t, hreaches, hstuck⟩, hall⟩ := converges_alone loadBoth both [some 1, some 1]
    (numbers 1 1) (torn.take 6) s loadBoth_within rfl (along_reported (by decide)) hrun hwatching halive
  exact ⟨s, hrun, ⟨trigger, rest, hpoint⟩, t, hreaches, hall t hreaches hstuck⟩

/-! ### The timed loop -/

section Timed

variable {clock : Clock} {debounce : Duration} {closes : Option Nat} {returned : Nat}
  {trigger : Path} {rest : List Arrival}

/-- A message that is not relevant, while the thread waits. -/
theorem receive_irrelevant {s : State D V} {message : Message} {queue : List Message}
    (hpoint : s.point = .waiting) (hqueue : s.queue = message :: queue)
    (hnone : message.relevant watched = none) :
    step load watched s (.receive 0) = some { s with queue } := by
  simp [step, hpoint, hqueue, hnone]

/-- The first relevant one. -/
theorem receive_relevant {s : State D V} {message : Message} {queue : List Message}
    (hpoint : s.point = .waiting) (hqueue : s.queue = message :: queue)
    (hopened : message.relevant watched = some trigger) :
    step load watched s (.receive 0) = some { s with point := .settling trigger, queue } := by
  simp [step, hpoint, hqueue, hopened]

/-- Any message, while the thread waits out a flurry. -/
theorem receive_settling {s : State D V} {opened : Path} {message : Message} {queue : List Message}
    (hpoint : s.point = .settling opened) (hqueue : s.queue = message :: queue) :
    step load watched s (.receive 0) = some { s with queue } := by
  simp [step, hpoint, hqueue]

/-- The thread receives one message more. -/
theorem run_receive {s t u : State D V} {k : ℕ} {events : List (Event D V)}
    (h : step load watched s (.receive 0) = some t)
    (hrun : run (step load watched) t (List.replicate k (.receive 0) ++ events) = some u) :
    run (step load watched) s (List.replicate (k + 1) (.receive 0) ++ events) = some u := by
  rw [List.replicate_succ, List.cons_append, run_cons_of_step h, hrun]

/-- Waiting out a flurry receives what comes, in its order, and then it loads. -/
theorem run_of_settle {deadline now quietUntil : Nat} {opened : Path} {arrivals : List Arrival}
    (h : settle clock watched debounce closes deadline opened now quietUntil arrivals =
      .dirty trigger returned rest) {s : State D V} (hpoint : s.point = .settling opened)
    (hqueue : s.queue = arrivals.map Arrival.message) :
    ∃ k, run (step load watched) s (List.replicate k (.receive 0) ++ [.ripe]) =
      some { s with point := .loading trigger load, queue := rest.map Arrival.message } := by
  have hripe : run (step load watched) s [.ripe] =
      some { s with point := .loading opened load, queue := arrivals.map Arrival.message } := by
    have hstep : step load watched s .ripe = some { s with point := .loading opened load } := by
      simp [step, hpoint]
    rw [run_cons_of_step hstep, run_nil, ← hqueue]
  induction arrivals generalizing now quietUntil s with
  | nil =>
    have hstays : trigger = opened ∧ rest = [] := by
      simp only [settle] at h
      split at h
      · cases h
        exact ⟨rfl, rfl⟩
      · split at h
        · split at h
          · cases h
          · cases h
            exact ⟨rfl, rfl⟩
        · cases h
          exact ⟨rfl, rfl⟩
    obtain ⟨rfl, rfl⟩ := hstays
    exact ⟨0, hripe⟩
  | cons a arrivals ih =>
    simp only [settle] at h
    split at h
    · cases h
      exact ⟨0, hripe⟩
    · split at h
      · have hrest : ∀ {now quietUntil : Nat},
            settle clock watched debounce closes deadline opened now quietUntil arrivals =
              .dirty trigger returned rest →
            ∃ k, run (step load watched) s (List.replicate k (.receive 0) ++ [.ripe]) =
              some { s with point := .loading trigger load, queue := rest.map Arrival.message } := by
          intro now quietUntil hsettle
          obtain ⟨k, hk⟩ := ih hsettle
            (s := { s with queue := arrivals.map Arrival.message }) hpoint rfl
              (by simp [run_cons, step, hpoint])
          exact ⟨k + 1, run_receive (receive_settling hpoint hqueue) hk⟩
        split at h
        · split at h
          · exact hrest h
          · cases h
        · exact hrest h
      · cases h
        exact ⟨0, hripe⟩

/-- **The timed loop is a way of the thread.** A round that comes to a load receives messages in their
order, and stops after some of them with the first relevant one as its trigger. -/
theorem run_of_collectRelevant {now : Nat} {arrivals : List Arrival}
    (h : collectRelevant clock watched debounce closes now arrivals = .dirty trigger returned rest)
    {s : State D V} (hpoint : s.point = .waiting) (hqueue : s.queue = arrivals.map Arrival.message) :
    ∃ k, run (step load watched) s (List.replicate k (.receive 0) ++ [.ripe]) =
      some { s with point := .loading trigger load, queue := rest.map Arrival.message } := by
  induction arrivals generalizing now s with
  | nil =>
    simp only [collectRelevant] at h
    split at h <;> cases h
  | cons a arrivals ih =>
    simp only [collectRelevant] at h
    split at h
    · next hnone =>
      obtain ⟨k, hk⟩ := ih h (s := { s with queue := arrivals.map Arrival.message }) hpoint rfl
      exact ⟨k + 1, run_receive (receive_irrelevant hpoint hqueue hnone) hk⟩
    · next opened hopened =>
      split at h
      · obtain ⟨k, hk⟩ := run_of_settle h
          (s := { s with point := .settling opened, queue := arrivals.map Arrival.message }) rfl rfl
        exact ⟨k + 1, run_receive (receive_relevant hpoint hqueue hopened) hk⟩
      · cases h

/-- At some instant of a round the clock has none four periods later: when it begins, or when a message
comes. -/
def Short (clock : Clock) (debounce : Duration) (now : Nat) (arrivals : List Arrival) : Prop :=
  ∃ time, (time = now ∨ ∃ a ∈ arrivals, time = a.time) ∧
    clock.last < time + (debounce.saturatingMul 4).asNanos

/-- The rest of a round. -/
theorem Short.cons {now : Nat} {a : Arrival} {arrivals : List Arrival}
    (h : Short clock debounce (max now a.time) arrivals) : Short clock debounce now (a :: arrivals) := by
  obtain ⟨time, htime, hlast⟩ := h
  refine ⟨time, ?_, hlast⟩
  rcases htime with rfl | ⟨b, hb, rfl⟩
  · rcases max_choice now a.time with hmax | hmax
    · exact .inl hmax
    · exact .inr ⟨a, List.mem_cons_self, hmax⟩
  · exact .inr ⟨b, List.mem_cons_of_mem a hb, rfl⟩

/-- A sum the clock does not have. -/
theorem short_of_add {now : Nat} {a : Arrival} {arrivals : List Arrival} {duration : Duration}
    (hle : duration.asNanos ≤ (debounce.saturatingMul 4).asNanos)
    (h : clock.add (max now a.time) duration = none) : Short clock debounce now (a :: arrivals) := by
  refine Short.cons ⟨max now a.time, .inl rfl, ?_⟩
  rw [Clock.add] at h
  split at h
  · cases h
  · omega

/-- Waiting out a flurry, the thread panics on receiving a relevant message. -/
theorem run_of_settle_panicked {deadline now quietUntil : Nat} {opened : Path}
    {arrivals : List Arrival}
    (h : settle clock watched debounce closes deadline opened now quietUntil arrivals = .panicked)
    {s : State D V} (hpoint : s.point = .settling opened)
    (hqueue : s.queue = arrivals.map Arrival.message) :
    Short clock debounce now arrivals ∧ ∃ k left,
      run (step load watched) s (List.replicate k (.receive 0) ++ [.panic 0]) =
        some { s with point := .panicked, queue := left } := by
  induction arrivals generalizing now quietUntil s with
  | nil =>
    simp only [settle] at h
    split at h
    · cases h
    · split at h
      · split at h <;> cases h
      · cases h
  | cons a arrivals ih =>
    have hlater : ∀ {quietUntil : Nat},
        settle clock watched debounce closes deadline opened (max now a.time) quietUntil arrivals =
          .panicked →
        Short clock debounce now (a :: arrivals) ∧ ∃ k left,
          run (step load watched) s (List.replicate k (.receive 0) ++ [.panic 0]) =
            some { s with point := .panicked, queue := left } := by
      intro quietUntil hsettle
      obtain ⟨hshort, k, left, hk⟩ := ih hsettle
        (s := { s with queue := arrivals.map Arrival.message }) hpoint rfl
      exact ⟨hshort.cons, k + 1, left, run_receive (receive_settling hpoint hqueue) hk⟩
    simp only [settle] at h
    split at h
    · cases h
    · split at h
      · split at h
        · next hrelevant =>
          split at h
          · exact hlater h
          · next hadd =>
            refine ⟨short_of_add (Debounce.le_saturatingMul debounce).1 hadd, 0,
              arrivals.map Arrival.message, ?_⟩
            rw [List.replicate_zero, List.nil_append, run_cons_of_step, run_nil]
            simp [step, hpoint, hqueue, hrelevant]
        · exact hlater h
      · cases h

/-- **The panic of the timed loop is the thread's**, and it comes to it only where the clock has no
instant four periods after the beginning of the round or after a message. -/
theorem run_of_panicked {now : Nat} {arrivals : List Arrival}
    (h : collectRelevant clock watched debounce closes now arrivals = .panicked)
    {s : State D V} (hpoint : s.point = .waiting) (hqueue : s.queue = arrivals.map Arrival.message) :
    Short clock debounce now arrivals ∧ ∃ k left,
      run (step load watched) s (List.replicate k (.receive 0) ++ [.panic 0]) =
        some { s with point := .panicked, queue := left } := by
  induction arrivals generalizing now s with
  | nil =>
    simp only [collectRelevant] at h
    split at h <;> cases h
  | cons a arrivals ih =>
    simp only [collectRelevant] at h
    split at h
    · next hnone =>
      obtain ⟨hshort, k, left, hk⟩ :=
        ih h (s := { s with queue := arrivals.map Arrival.message }) hpoint rfl
      exact ⟨hshort.cons, k + 1, left, run_receive (receive_irrelevant hpoint hqueue hnone) hk⟩
    · next opened hopened =>
      split at h
      · obtain ⟨hshort, k, left, hk⟩ := run_of_settle_panicked h
          (s := { s with point := .settling opened, queue := arrivals.map Arrival.message }) rfl rfl
        exact ⟨hshort.cons, k + 1, left, run_receive (receive_relevant hpoint hqueue hopened) hk⟩
      · next hadd =>
        have hshort : Short clock debounce now (a :: arrivals) := by
          rcases hdeadline : clock.add (max now a.time) (debounce.saturatingMul 4) with - | deadline
          · exact short_of_add (Nat.le_refl _) hdeadline
          · rcases hquiet : clock.add (max now a.time) debounce with - | quietUntil
            · exact short_of_add (Debounce.le_saturatingMul debounce).1 hquiet
            · exact absurd hquiet (hadd deadline quietUntil hdeadline)
        refine ⟨hshort, 0, arrivals.map Arrival.message, ?_⟩
        rw [List.replicate_zero, List.nil_append, run_cons_of_step, run_nil]
        simp [step, hpoint, hqueue, hopened]

end Timed

/-! ### Causes -/

def Entry.isReloaded : Entry V → Bool
  | .reloaded _ _ => true
  | .installed _ => false

/-- Whether the thread is on its way from a message to a load. -/
def Point.isBusy : Point D V → Bool
  | .settling _ | .loading _ _ => true
  | .waiting | .ended | .panicked => false

/-- A path a relevant message was about. -/
def Named (watched : Watched) (sent : List Message) (trigger : Path) : Prop :=
  ∃ message ∈ sent, message.relevant watched = some trigger

/-- What the thread is on its way for, and what it loaded for. -/
def Point.trigger : Point D V → Option Path
  | .settling trigger | .loading trigger _ => some trigger
  | .waiting | .ended | .panicked => none

/-- Every load has a message of its own behind it. -/
structure Caused (watched : Watched) (s : State D V) : Prop where
  queued : ∀ message ∈ s.queue, message ∈ s.sent
  point : ∀ trigger, s.point.trigger = some trigger → Named watched s.sent trigger
  log : ∀ trigger outcome, Entry.reloaded trigger outcome ∈ s.log → Named watched s.sent trigger
  count : s.log.countP Entry.isReloaded + s.queue.countP (isRelevant watched) +
    (if s.point.isBusy then 1 else 0) ≤ s.sent.countP (isRelevant watched)

theorem Named.append {sent : List Message} {trigger : Path} (h : Named watched sent trigger)
    (reports : List Message) : Named watched (sent ++ reports) trigger := by
  obtain ⟨message, hmessage, htrigger⟩ := h
  exact ⟨message, List.mem_append_left _ hmessage, htrigger⟩

/-- **One move keeps every load caused.** -/
theorem Caused.moves {s t : State D V} {e : Event D V} (hmoves : Moves load watched s e t)
    (h : Caused watched s) : Caused watched t := by
  have hcount := h.count
  have herase : ∀ n, (s.queue.eraseIdx n).countP (isRelevant watched) ≤
      s.queue.countP (isRelevant watched) := fun n ↦ (List.eraseIdx_sublist s.queue n).countP_le
  cases hmoves with
  | reported hwatching disk reports =>
    refine ⟨fun message hmessage ↦ ?_, fun trigger htrigger ↦ (h.point trigger htrigger).append _,
      fun trigger outcome hlog ↦ (h.log trigger outcome hlog).append _, ?_⟩
    · exact (List.mem_append.1 hmessage).elim
        (fun hold ↦ List.mem_append_left _ (h.queued message hold)) (List.mem_append_right _)
    · simp only [List.countP_append]
      omega
  | unreported | dropped => exact ⟨h.queued, h.point, h.log, h.count⟩
  | @noticed hpoint n message hn trigger htrigger =>
    refine ⟨fun other hother ↦ h.queued other ((List.eraseIdx_sublist _ n).subset hother),
      fun trigger' htrigger' ↦ ?_, h.log, ?_⟩
    · obtain rfl := Option.some.inj htrigger'
      exact ⟨message, h.queued message (List.mem_of_getElem? hn), htrigger⟩
    · -- The message that was received is one the load has behind it.
      obtain ⟨hlt, rfl⟩ := List.getElem?_eq_some_iff.1 hn
      have hperm := (List.getElem_cons_eraseIdx_perm hlt).countP_eq (isRelevant watched)
      rw [List.countP_cons_of_pos (by simp [isRelevant, htrigger])] at hperm
      simp only [hpoint, Point.isBusy, Bool.false_eq_true, if_false, if_true] at hcount ⊢
      omega
  | @ignored hpoint n message hn hirrelevant =>
    refine ⟨fun other hother ↦ h.queued other ((List.eraseIdx_sublist _ n).subset hother),
      h.point, h.log, ?_⟩
    have := herase n
    dsimp only
    omega
  | @settled trigger hpoint n message hn =>
    refine ⟨fun other hother ↦ h.queued other ((List.eraseIdx_sublist _ n).subset hother),
      h.point, h.log, ?_⟩
    have := herase n
    dsimp only
    omega
  | @panicked n message hn hrelevant =>
    refine ⟨fun other hother ↦ h.queued other ((List.eraseIdx_sublist _ n).subset hother),
      fun trigger htrigger ↦ (by cases htrigger), h.log, ?_⟩
    have := herase n
    simp only [Point.isBusy, Bool.false_eq_true, if_false]
    omega
  | ripe hpoint =>
    refine ⟨h.queued, fun trigger htrigger ↦ h.point trigger ?_, h.log, ?_⟩
    · rw [hpoint]
      exact htrigger
    · rw [hpoint] at hcount
      exact hcount
  | read hpoint =>
    refine ⟨h.queued, fun trigger htrigger ↦ h.point trigger ?_, h.log, ?_⟩
    · rw [hpoint]
      exact htrigger
    · rw [hpoint] at hcount
      exact hcount
  | @finished trigger outcome hpoint =>
    refine ⟨h.queued, fun trigger' htrigger' ↦ (by cases htrigger'), fun trigger' outcome' hlog ↦ ?_, ?_⟩
    · rcases List.mem_cons.1 hlog with hnew | hlog
      · obtain ⟨rfl, rfl⟩ := Entry.reloaded.inj hnew
        exact h.point _ (by rw [hpoint]; rfl)
      · exact h.log trigger' outcome' hlog
    · rw [List.countP_cons_of_pos rfl]
      simp only [hpoint, Point.isBusy, Bool.false_eq_true, if_false, if_true] at hcount ⊢
      omega
  | installed value =>
    refine ⟨h.queued, h.point, fun trigger outcome hlog ↦ ?_, ?_⟩
    · rcases List.mem_cons.1 hlog with hnew | hlog
      · cases hnew
      · exact h.log trigger outcome hlog
    · rw [List.countP_cons_of_neg Bool.false_ne_true]
      exact hcount
  | ended hwatching hqueue =>
    refine ⟨h.queued, fun trigger htrigger ↦ (by cases htrigger), h.log, ?_⟩
    simp only [Point.isBusy, Bool.false_eq_true, if_false]
    omega

/-- What a message is relevant for is ours. -/
theorem ours_of_relevant {message : Message} {trigger : Path}
    (h : message.relevant watched = some trigger) : Ours watched trigger := by
  match message with
  | .event event =>
    simp only [Message.relevant, relevantPath] at h
    split at h
    · have hours := List.find?_some h
      exact hours
    · cases h
  | .failure error => cases h

/-- **No load is without a cause.** In every run each load of the watcher is for a path of ours that a
message was about, and there are no more loads than relevant messages: a flurry is one load, a neighbour's
churn is none, and nothing is loaded twice for one message. -/
theorem reloads_caused (load : Reads D V) (watched : Watched) (disk : Disk D)
    (events : List (Event D V)) (s : State D V)
    (h : run (step load watched) (State.start disk) events = some s) :
    (∀ trigger outcome, Entry.reloaded trigger outcome ∈ s.log →
      Ours watched trigger ∧ Named watched s.sent trigger) ∧
      s.log.countP Entry.isReloaded ≤ s.sent.countP (isRelevant watched) := by
  have hcaused : Caused watched s := by
    refine run_invariant (fun _ _ _ hstep hs ↦ hs.moves (moves_of_step load watched hstep)) h
      ⟨fun _ hmessage ↦ hmessage, fun _ htrigger ↦ (by cases htrigger),
        fun _ _ hlog ↦ absurd hlog List.not_mem_nil, Nat.le_refl _⟩
  refine ⟨fun trigger outcome hlog ↦ ?_, ?_⟩
  · obtain ⟨message, hmessage, htrigger⟩ := hcaused.log trigger outcome hlog
    exact ⟨ours_of_relevant htrigger, message, hmessage, htrigger⟩
  · have := hcaused.count
    omega

theorem reloads_caused_torn :
    ∃ s, run (step loadBoth both) (State.start (numbers 1 1)) torn = some s ∧
      s.log.countP Entry.isReloaded = 2 ∧
      ((∀ trigger outcome, Entry.reloaded trigger outcome ∈ s.log →
          Ours both trigger ∧ Named both s.sent trigger) ∧
        s.log.countP Entry.isReloaded ≤ s.sent.countP (isRelevant both)) :=
  ⟨_, rfl, rfl, reloads_caused loadBoth both (numbers 1 1) torn _ rfl⟩

end DynamicConfig.Convergence
