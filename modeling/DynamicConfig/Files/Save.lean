import DynamicConfig.Config.UnixPath
import DynamicConfig.Files.Disk
import DynamicConfig.Loader.Spec
import DynamicConfig.Transition.Run

/-!
# Saving a configuration

`save` renders a section, writes the text to a temporary beside the target, brings it to the disk and
moves it onto the target. `save_new` writes to the target itself, which must not be there. Both fill
a file through `create_and_fill`, which removes what it has created and could not fill.

Every call of the system can be refused at any time, a write may take only part of what it is given,
and an interrupted one is repeated. So a program here is a list of points, and a run is what the
system answered, one answer after the other; what is left when the run is cut anywhere is the state
after these answers.

**What a call may leave.** In every state of every run the target is as it was or holds the whole new
text, and `save_new` has touched nothing that was there (`Kept`, preserved by every step). When the
call returns an error, and the system has not refused to remove the temporary, the disk is as it was;
when it returns without one, the target holds the text, and nothing else differs. A call returns:
every answer but an interruption brings it nearer to its end (`Point.left`).

The serializers of the formats, and the value's own `Serialize`, are third-party code and enter as
parameters.
-/

namespace DynamicConfig

open Files (Disk Entry Holding)
open Transition (run Along)

/-! ### The text of a section -/

namespace Write

/-- The serializers of the formats, and which of them are compiled in. -/
structure Serializers where
  enabled : Format → Bool
  serialize : Format → Dict → Except String String

/-- What a value is, without saying what it holds. -/
def shape : Node → String
  | .node _ _ => "a table"
  | .leaf _ (.array _) => "a list"
  | .leaf _ (.scalar .empty) => "nothing"
  | .leaf _ (.scalar _) => "a single value"

/-- The serialized value, nested under its section key. -/
def documentOf (serialized : Except String Node) (key : String) : Except Error Dict :=
  match serialized with
  | .error text => .error { kind := .type, message := text }
  | .ok (.node _ entries) => .ok [(key, .node none entries)]
  | .ok value =>
    .error
      { kind := .type
        message := "a configuration section must be a table, not " ++ shape value }

/-- One tree, as the text of a document. -/
def renderDocument (serializers : Serializers) (document : Dict) (format : Format) :
    Except Error String :=
  if serializers.enabled format then
    match serializers.serialize format document with
    | .error text => .error { kind := .type, message := text }
    | .ok text => .ok (if format = .json then text ++ "\n" else text)
  else
    .error
      { kind := .backend
        message := "cannot write " ++ format.debug ++ " because the \x60" ++ format.feature ++
          "\x60 feature is not enabled" }

/-- What `save` and `save_new` are to write: the bytes of the rendered section. -/
def rendered (serializers : Serializers) (serialized : Except String Node) (key : String)
    (format : Format) : Except Error (List UInt8) := do
  let document ← documentOf serialized key
  let text ← renderDocument serializers document format
  .ok text.toUTF8.data.toList

/-! ### The places of a save -/

/-- What makes the name of a temporary its own. -/
structure Stamp where
  pid : Nat
  /-- The nanoseconds of the clock, or nothing where the clock is before its epoch. -/
  nanos : Nat
  attempt : Nat
  deriving DecidableEq, Repr

/-- A number in hexadecimal digits, at least so many. -/
def hexadecimal (width n : Nat) : List Char :=
  List.leftpad width '0' (Nat.toDigits 16 n)

/-- A name next to the target: `temporary_name`. -/
def temporaryName (stamp : Stamp) (path : UnixPath.Path) : List Char :=
  '.' :: (UnixPath.fileName path).getD "config".toList ++ '.' :: Nat.toDigits 10 stamp.pid ++
    '.' :: hexadecimal 8 stamp.nanos ++ hexadecimal 0 stamp.attempt ++ ".tmp".toList

/-- The directory a path names, if it names one: its parent, unless this is empty. -/
def directoryOf (path : UnixPath.Path) : Option UnixPath.Path :=
  (UnixPath.parent path).filter fun parent ↦ !decide (parent = [])

/-- Where the temporary of a target is. -/
def temporaryOf (stamp : Stamp) (path : UnixPath.Path) : UnixPath.Path :=
  (directoryOf path).getD [.curDir] ++ [.normal (temporaryName stamp path)]

/-- The place of a path: a name in the directory its parent leads to, where it leads to one. A bare
name is looked up in the working directory, and a path that does not end in a name is no place a file
could be at. -/
def placeOf {δ : Type*} (leadsTo : UnixPath.Path → Option δ) (path : UnixPath.Path) :
    Option (δ × List Char) :=
  (UnixPath.fileName path).bind fun name ↦
    (leadsTo ((directoryOf path).getD [.curDir])).map fun directory ↦ (directory, name)

/-- What a save works on. -/
structure Places (ι : Type*) where
  /-- The path as the caller has it. -/
  path : String
  temporary : Option ι
  target : Option ι
  /-- The path names a directory, whose entries are brought to the disk at the end. -/
  directory : Bool

/-- The places of a path. -/
def placesOf {δ : Type*} (leadsTo : UnixPath.Path → Option δ) (stamp : Stamp) (path : String) :
    Places (δ × List Char) where
  path
  temporary := placeOf leadsTo (temporaryOf stamp (UnixPath.parse path.toList))
  target := placeOf leadsTo (UnixPath.parse path.toList)
  directory := (directoryOf (UnixPath.parse path.toList)).isSome

theorem fileName_concat (path : UnixPath.Path) (name : List Char) :
    UnixPath.fileName (path ++ [.normal name]) = some name :=
  UnixPath.fileName_append path rfl

/-- **The temporary is not the target.** -/
theorem temporary_ne_target {δ : Type*} (leadsTo : UnixPath.Path → Option δ) (stamp : Stamp)
    (path : String) {i j : δ × List Char} (hi : (placesOf leadsTo stamp path).temporary = some i)
    (hj : (placesOf leadsTo stamp path).target = some j) : j ≠ i := by
  obtain ⟨name, hname, hplace⟩ := Option.bind_eq_some_iff.1 hj
  obtain ⟨directory, -, rfl⟩ := Option.map_eq_some_iff.1 hplace
  obtain ⟨temporary, htemporary, hbeside⟩ := Option.bind_eq_some_iff.1 hi
  obtain ⟨directory', -, rfl⟩ := Option.map_eq_some_iff.1 hbeside
  rw [temporaryOf, fileName_concat] at htemporary
  obtain rfl := Option.some.inj htemporary
  intro heq
  have hlength := congrArg List.length (Prod.mk.inj heq).2
  rw [temporaryName, hname, Option.getD_some] at hlength
  simp only [List.length_append, List.length_cons] at hlength
  omega

/-! ### Filling a file -/

/-- What the system answers to a call. -/
inductive Answer
  | done
  /-- A write took so many bytes. -/
  | wrote (count : Nat)
  | interrupted
  | failed (error : String)
  deriving DecidableEq, Repr

/-- The points of `create_and_fill_bytes`. -/
inductive Filling
  | opening (contents : List UInt8)
  | writing (rest : List UInt8)
  | syncing
  | removing (error : String)
  | returned (result : Except String Unit)

/-- A file is created for nobody else. -/
def privateMode : Nat := 0o600

/-- `write_all`, with so much left to write. -/
def Filling.write (rest : List UInt8) : Filling :=
  if rest = [] then .syncing else .writing rest

/-- One call of `create_and_fill_bytes`, and its answer. -/
def Filling.step {ι : Type*} [DecidableEq ι] (place : Option ι) (disk : Disk ι) (point : Filling)
    (answer : Answer) : Option (Disk ι × Filling) :=
  match point, answer with
  | .opening contents, .done =>
    place.bind fun i ↦ (disk.createNew i privateMode).map fun disk ↦ (disk, .write contents)
  | .opening _, .failed error => some (disk, .returned (.error error))
  | .writing rest, .wrote count =>
    if count = 0 then some (disk, .removing "failed to write whole buffer")
    else if count ≤ rest.length then
      place.bind fun i ↦ (disk.append i (rest.take count)).map fun disk ↦
        (disk, .write (rest.drop count))
    else none
  | .writing rest, .interrupted => some (disk, .writing rest)
  | .writing _, .failed error => some (disk, .removing error)
  | .syncing, .done => some (disk, .returned (.ok ()))
  | .syncing, .failed error => some (disk, .removing error)
  -- What was created and could not be filled is removed. Whether that worked is not looked at.
  | .removing error, .done => some ((place.map disk.remove).getD disk, .returned (.error error))
  | .removing error, .failed _ => some (disk, .returned (.error error))
  | _, _ => none

/-! ### The two programs -/

/-- The points of a save. -/
inductive Point
  | filling (point : Filling)
  | replacing
  | sweeping (error : String)
  | openingDirectory
  | syncingDirectory
  | returned (result : Except Error Unit)

/-- A failure of the system, where it happened. -/
def ioError (path error : String) : Error :=
  ({ kind := .io, message := error } : Error).withOrigin (.file path)

/-- After a call of `create_and_fill_bytes`: on with the next point once it has returned. -/
def Point.afterFilling (path : String) (next : Point) : Filling → Point
  | .returned (.ok ()) => next
  | .returned (.error error) => .returned (.error (ioError path error))
  | point => .filling point

/-- A call to save that is on its way. -/
structure Saving (ι : Type*) where
  disk : Disk ι
  point : Point

/-- Where a call starts once the section has been rendered. One that could not be is returned before
the disk is touched. -/
def Saving.start {ι : Type*} (rendered : Except Error (List UInt8)) (disk : Disk ι) : Saving ι where
  disk
  point :=
    match rendered with
    | .error error => .returned (.error error)
    | .ok contents => .filling (.opening contents)

section Steps

variable {ι : Type*} [DecidableEq ι]

/-- One call of `save`, and its answer: `write_bytes_atomically`. -/
def saveStep (places : Places ι) (saving : Saving ι) (answer : Answer) : Option (Saving ι) :=
  match saving.point, answer with
  | .filling point, answer =>
    (point.step places.temporary saving.disk answer).map fun e ↦
      { disk := e.1, point := Point.afterFilling places.path .replacing e.2 }
  | .replacing, .done =>
    places.temporary.bind fun i ↦ places.target.bind fun j ↦
      (saving.disk.rename i j).map fun disk ↦
        { disk, point := if places.directory then .openingDirectory else .returned (.ok ()) }
  | .replacing, .failed error => some { saving with point := .sweeping error }
  | .sweeping error, .done => some
    { disk := (places.temporary.map saving.disk.remove).getD saving.disk
      point := .returned (.error (ioError places.path error)) }
  | .sweeping error, .failed _ =>
    some { saving with point := .returned (.error (ioError places.path error)) }
  -- A directory that cannot be synced is as good: the rename has happened.
  | .openingDirectory, .done => some { saving with point := .syncingDirectory }
  | .openingDirectory, .failed _ => some { saving with point := .returned (.ok ()) }
  | .syncingDirectory, .done => some { saving with point := .returned (.ok ()) }
  | .syncingDirectory, .failed _ => some { saving with point := .returned (.ok ()) }
  | _, _ => none

/-- One call of `save_new`, and its answer. -/
def saveNewStep (places : Places ι) (saving : Saving ι) (answer : Answer) : Option (Saving ι) :=
  match saving.point with
  | .filling point =>
    (point.step places.target saving.disk answer).map fun e ↦
      { disk := e.1, point := Point.afterFilling places.path (.returned (.ok ())) e.2 }
  | _ => none

/-! ### What is left of a call -/

/-- No more calls than this are left once a file is being filled, but those that are interrupted. What
comes after it takes three at most. -/
def Filling.left : Filling → Nat
  | .opening contents => contents.length + 5
  | .writing rest => rest.length + 4
  | .syncing => 4
  | .removing _ => 1
  | .returned (.ok ()) => 3
  | .returned (.error _) => 0

/-- No more calls than this are left of a save, but those that are interrupted. -/
def Point.left : Point → Nat
  | .filling point => point.left
  | .replacing => 3
  | .sweeping _ => 1
  | .openingDirectory => 2
  | .syncingDirectory => 1
  | .returned _ => 0

/-- An answer that leaves a call where it was. -/
def Answer.isIdle : Answer → Bool
  | .interrupted => true
  | _ => false

/-! ### The steps of filling -/

/-- What one call of `create_and_fill_bytes` does, answer by answer. -/
inductive Filling.Moves (place : Option ι) (disk : Disk ι) :
    Filling → Answer → Disk ι → Filling → Prop
  | created {contents : List UInt8} {i : ι} {disk' : Disk ι} (hplace : place = some i)
      (hcreate : disk.createNew i privateMode = some disk') :
      Moves place disk (.opening contents) .done disk' (.write contents)
  | refused (contents : List UInt8) (error : String) :
      Moves place disk (.opening contents) (.failed error) disk (.returned (.error error))
  | wrote {rest : List UInt8} {count : Nat} {i : ι} {disk' : Disk ι} (hpos : 0 < count)
      (hcount : count ≤ rest.length) (hplace : place = some i)
      (happend : disk.append i (rest.take count) = some disk') :
      Moves place disk (.writing rest) (.wrote count) disk' (.write (rest.drop count))
  | interrupted (rest : List UInt8) :
      Moves place disk (.writing rest) .interrupted disk (.writing rest)
  | wroteNothing (rest : List UInt8) :
      Moves place disk (.writing rest) (.wrote 0) disk (.removing "failed to write whole buffer")
  | notWritten (rest : List UInt8) (error : String) :
      Moves place disk (.writing rest) (.failed error) disk (.removing error)
  | synced : Moves place disk .syncing .done disk (.returned (.ok ()))
  | notSynced (error : String) :
      Moves place disk .syncing (.failed error) disk (.removing error)
  | removed (error : String) :
      Moves place disk (.removing error) .done ((place.map disk.remove).getD disk)
        (.returned (.error error))
  | notRemoved (error why : String) :
      Moves place disk (.removing error) (.failed why) disk (.returned (.error error))

theorem Filling.moves_of_step {place : Option ι} {disk disk' : Disk ι} {point point' : Filling}
    {answer : Answer} (h : point.step place disk answer = some (disk', point')) :
    Filling.Moves place disk point answer disk' point' := by
  rcases point with contents | rest | - | error | result <;>
    rcases answer with - | count | - | why <;>
    first | cases h | skip
  · obtain ⟨i, hplace, hcreate⟩ := Option.bind_eq_some_iff.1 h
    obtain ⟨disk'', hcreate', heq⟩ := Option.map_eq_some_iff.1 hcreate
    obtain ⟨rfl, rfl⟩ := Prod.mk.inj heq
    exact .created hplace hcreate'
  · exact .refused contents why
  · rw [Filling.step] at h
    split at h
    · next hzero =>
      obtain ⟨rfl, rfl⟩ := Prod.mk.inj (Option.some.inj h)
      subst hzero
      exact .wroteNothing rest
    · next hcount =>
      split at h
      · next hle =>
        obtain ⟨i, hplace, happend⟩ := Option.bind_eq_some_iff.1 h
        obtain ⟨disk'', happend', heq⟩ := Option.map_eq_some_iff.1 happend
        obtain ⟨rfl, rfl⟩ := Prod.mk.inj heq
        exact .wrote (Nat.pos_of_ne_zero hcount) hle hplace happend'
      · cases h
  · exact .interrupted rest
  · exact .notWritten rest why
  · exact .synced
  · exact .notSynced why
  · exact .removed error
  · exact .notRemoved error why

/-! ### Every step brings a call nearer to its end -/

theorem Filling.left_write (rest : List UInt8) : (Filling.write rest).left ≤ rest.length + 4 := by
  rw [Filling.write]
  split
  · show 4 ≤ rest.length + 4
    omega
  · exact Nat.le_refl _

theorem Filling.Moves.left_le {place : Option ι} {disk disk' : Disk ι} {point point' : Filling}
    {answer : Answer} (h : Filling.Moves place disk point answer disk' point') :
    point'.left + (if answer.isIdle then 0 else 1) ≤ point.left := by
  rcases h with ⟨-, -⟩ | - | ⟨hpos, hcount, -, -⟩ | - | - | - | - | - | - | -
  case created contents _ =>
    have hwrite := Filling.left_write contents
    show (Filling.write contents).left + 1 ≤ contents.length + 5
    omega
  case wrote rest count _ =>
    have hwrite := Filling.left_write (rest.drop count)
    rw [List.length_drop] at hwrite
    show (Filling.write (rest.drop count)).left + 1 ≤ rest.length + 4
    omega
  case refused contents _ =>
    show 0 + 1 ≤ contents.length + 5
    omega
  case wroteNothing rest =>
    show 1 + 1 ≤ rest.length + 4
    omega
  case notWritten rest _ =>
    show 1 + 1 ≤ rest.length + 4
    omega
  case interrupted rest => exact Nat.le_refl (rest.length + 4)
  case synced => exact Nat.le_refl 4
  case notSynced error =>
    show 1 + 1 ≤ 4
    omega
  case removed error => exact Nat.le_refl 1
  case notRemoved error _ => exact Nat.le_refl 1

omit [DecidableEq ι] in
theorem Point.left_afterFilling (path : String) {next : Point} (hnext : next.left ≤ 3)
    (point : Filling) : (Point.afterFilling path next point).left ≤ point.left := by
  rcases point with - | - | - | - | (error | ⟨⟩)
  case returned.ok => exact hnext
  all_goals exact Nat.le_refl _

/-- What one call of `write_bytes_atomically` does, answer by answer. -/
inductive Moves (places : Places ι) (disk : Disk ι) : Point → Answer → Disk ι → Point → Prop
  | fills {point point' : Filling} {answer : Answer} {disk' : Disk ι}
      (hfills : Filling.Moves places.temporary disk point answer disk' point') :
      Moves places disk (.filling point) answer disk' (Point.afterFilling places.path .replacing point')
  | renamed {i j : ι} {disk' : Disk ι} (htemporary : places.temporary = some i)
      (htarget : places.target = some j) (hrename : disk.rename i j = some disk') :
      Moves places disk .replacing .done disk'
        (if places.directory then .openingDirectory else .returned (.ok ()))
  | notRenamed (error : String) :
      Moves places disk .replacing (.failed error) disk (.sweeping error)
  | swept (error : String) :
      Moves places disk (.sweeping error) .done ((places.temporary.map disk.remove).getD disk)
        (.returned (.error (ioError places.path error)))
  | notSwept (error why : String) :
      Moves places disk (.sweeping error) (.failed why) disk
        (.returned (.error (ioError places.path error)))
  | opened : Moves places disk .openingDirectory .done disk .syncingDirectory
  | notOpened (why : String) :
      Moves places disk .openingDirectory (.failed why) disk (.returned (.ok ()))
  | synced : Moves places disk .syncingDirectory .done disk (.returned (.ok ()))
  | notSynced (why : String) :
      Moves places disk .syncingDirectory (.failed why) disk (.returned (.ok ()))

theorem moves_of_saveStep {places : Places ι} {saving saving' : Saving ι} {answer : Answer}
    (h : saveStep places saving answer = some saving') :
    Moves places saving.disk saving.point answer saving'.disk saving'.point := by
  rcases saving with ⟨disk, point | - | error | - | - | result⟩
  case filling =>
    obtain ⟨⟨disk', point'⟩, hstep, rfl⟩ := Option.map_eq_some_iff.1 h
    exact .fills (Filling.moves_of_step hstep)
  all_goals rcases answer with - | count | - | why
  case replacing.done =>
    obtain ⟨i, htemporary, hrest⟩ := Option.bind_eq_some_iff.1 h
    obtain ⟨j, htarget, hrenames⟩ := Option.bind_eq_some_iff.1 hrest
    obtain ⟨disk', hrename, rfl⟩ := Option.map_eq_some_iff.1 hrenames
    exact .renamed htemporary htarget hrename
  case replacing.failed => exact Option.some.inj h ▸ .notRenamed why
  case sweeping.done => exact Option.some.inj h ▸ .swept error
  case sweeping.failed => exact Option.some.inj h ▸ .notSwept error why
  case openingDirectory.done => exact Option.some.inj h ▸ .opened
  case openingDirectory.failed => exact Option.some.inj h ▸ .notOpened why
  case syncingDirectory.done => exact Option.some.inj h ▸ .synced
  case syncingDirectory.failed => exact Option.some.inj h ▸ .notSynced why
  all_goals cases h

theorem fills_of_saveNewStep {places : Places ι} {saving saving' : Saving ι} {answer : Answer}
    (h : saveNewStep places saving answer = some saving') :
    ∃ point point', saving.point = .filling point ∧
      saving'.point = Point.afterFilling places.path (.returned (.ok ())) point' ∧
        Filling.Moves places.target saving.disk point answer saving'.disk point' := by
  rcases saving with ⟨disk, point | _ | _ | _ | _ | _⟩
  case filling =>
    obtain ⟨⟨disk', point'⟩, hstep, rfl⟩ := Option.map_eq_some_iff.1 h
    exact ⟨point, point', rfl, rfl, Filling.moves_of_step hstep⟩
  all_goals cases h

theorem left_le_of_saveNewStep {places : Places ι} {saving saving' : Saving ι} {answer : Answer}
    (h : saveNewStep places saving answer = some saving') :
    saving'.point.left + (if answer.isIdle then 0 else 1) ≤ saving.point.left := by
  obtain ⟨point, point', hpoint, hpoint', hfills⟩ := fills_of_saveNewStep h
  have hnext : (Point.returned (.ok ())).left ≤ 3 := by decide
  have hafter := Point.left_afterFilling places.path hnext point'
  rw [hpoint, hpoint']
  exact (Nat.add_le_add_right hafter _).trans hfills.left_le

theorem left_le_of_saveStep {places : Places ι} {saving saving' : Saving ι} {answer : Answer}
    (h : saveStep places saving answer = some saving') :
    saving'.point.left + (if answer.isIdle then 0 else 1) ≤ saving.point.left := by
  rcases saving with ⟨disk, point⟩
  rcases saving' with ⟨disk', point'⟩
  rcases moves_of_saveStep h with hfills | - | - | - | - | - | - | - | -
  case fills _ point' =>
    have hnext : Point.replacing.left ≤ 3 := by decide
    have hafter := Point.left_afterFilling places.path hnext point'
    exact (Nat.add_le_add_right hafter _).trans hfills.left_le
  case renamed =>
    show (if places.directory then Point.openingDirectory else .returned (.ok ())).left + 1 ≤ 3
    split
    · exact Nat.le_refl 3
    · exact Nat.le_of_ble_eq_true rfl
  all_goals exact Nat.le_of_ble_eq_true rfl

/-! ### What a call may leave -/

/-- A file with these bytes is at a place where there was nothing. -/
def Filled (before : Disk ι) (place : Option ι) (bytes : List UInt8) (disk : Disk ι) : Prop :=
  ∃ i, place = some i ∧ Holding before i privateMode bytes disk

/-- A file with these bytes is at a place, whatever was there, and otherwise the disk is as it was. -/
def Replaced (before : Disk ι) (place : Option ι) (bytes : List UInt8) (disk : Disk ι) : Prop :=
  ∃ j, place = some j ∧ disk = Function.update before j (some (.file privateMode bytes))

/-- The disk is as it was, or the system refused to take away what had been created. -/
def Restored (clean : Prop) (before : Disk ι) (place : Option ι) (disk : Disk ι) : Prop :=
  disk = before ∨ ¬clean ∧ ∃ bytes, Filled before place bytes disk

/-- What filling a file has left so far. -/
def Filling.Kept (clean : Prop) (before : Disk ι) (place : Option ι) (contents : List UInt8)
    (disk : Disk ι) : Filling → Prop
  | .opening rest => rest = contents ∧ disk = before
  | .writing rest => ∃ written, contents = written ++ rest ∧ Filled before place written disk
  | .syncing => Filled before place contents disk
  | .removing _ => ∃ bytes, Filled before place bytes disk
  | .returned (.ok ()) => Filled before place contents disk
  | .returned (.error _) => Restored clean before place disk

/-- The system takes away what it is asked to. -/
def Filling.Removes : Filling → Answer → Prop
  | .removing _, answer => answer = .done
  | _, _ => True

/-- The system takes away what it is asked to. -/
def Saving.Removes (saving : Saving ι) (answer : Answer) : Prop :=
  match saving.point with
  | .filling point => point.Removes answer
  | .sweeping _ => answer = .done
  | _ => True

instance (point : Filling) (answer : Answer) : Decidable (point.Removes answer) :=
  match point with
  | .removing _ => inferInstanceAs (Decidable (answer = .done))
  | .opening _ | .writing _ | .syncing | .returned _ => isTrue trivial

omit [DecidableEq ι] in
instance (saving : Saving ι) (answer : Answer) : Decidable (saving.Removes answer) :=
  match saving with
  | ⟨_, .filling point⟩ => inferInstanceAs (Decidable (point.Removes answer))
  | ⟨_, .sweeping _⟩ => inferInstanceAs (Decidable (answer = .done))
  | ⟨_, .replacing⟩ | ⟨_, .openingDirectory⟩ | ⟨_, .syncingDirectory⟩ | ⟨_, .returned _⟩ =>
    isTrue trivial

variable {clean : Prop} {before disk disk' : Disk ι} {place : Option ι} {bytes contents : List UInt8}

/-- Everything that is left to write is behind what is written. -/
theorem Filling.kept_write {written rest : List UInt8} (hcontents : contents = written ++ rest)
    (hfilled : Filled before place written disk) :
    (Filling.write rest).Kept clean before place contents disk := by
  rw [Filling.write]
  split
  · next hrest =>
    rw [hrest, List.append_nil] at hcontents
    exact hcontents ▸ hfilled
  · exact ⟨written, hcontents, hfilled⟩

theorem Filled.remove (h : Filled before place bytes disk) :
    (place.map disk.remove).getD disk = before := by
  obtain ⟨i, rfl, hholding⟩ := h
  exact hholding.remove

/-- **What one call of `create_and_fill_bytes` leaves.** -/
theorem Filling.Moves.kept {point point' : Filling} {answer : Answer}
    (h : Filling.Moves place disk point answer disk' point')
    (hremoves : clean → point.Removes answer)
    (hkept : point.Kept clean before place contents disk) :
    point'.Kept clean before place contents disk' := by
  rcases h with ⟨hplace, hcreate⟩ | _ | ⟨hpos, hcount, hplace, happend⟩ | _ | _ | _ | _ | _ | _ | _
  case created contents' i =>
    obtain ⟨rfl, rfl⟩ := hkept
    exact Filling.kept_write (List.nil_append _).symm ⟨i, hplace, Files.holding_of_createNew hcreate⟩
  case refused =>
    obtain ⟨-, rfl⟩ := hkept
    exact Or.inl rfl
  case wrote rest count i =>
    obtain ⟨written, rfl, i', hplace', hholding⟩ := hkept
    obtain rfl := Option.some.inj (hplace.symm.trans hplace')
    refine Filling.kept_write ?_ ⟨i, hplace, hholding.append happend⟩
    rw [List.append_assoc, List.take_append_drop]
  case interrupted => exact hkept
  case wroteNothing =>
    obtain ⟨written, -, hfilled⟩ := hkept
    exact ⟨written, hfilled⟩
  case notWritten =>
    obtain ⟨written, -, hfilled⟩ := hkept
    exact ⟨written, hfilled⟩
  case synced => exact hkept
  case notSynced => exact ⟨contents, hkept⟩
  case removed =>
    obtain ⟨bytes, hfilled⟩ := hkept
    exact Or.inl hfilled.remove
  case notRemoved why =>
    refine Or.inr ⟨fun hclean ↦ ?_, hkept⟩
    have hdone : Answer.failed why = .done := hremoves hclean
    cases hdone

/-- What a call of `save` has left so far. -/
def Saving.Kept (clean : Prop) (before : Disk ι) (places : Places ι) (contents : List UInt8)
    (saving : Saving ι) : Prop :=
  match saving.point with
  | .filling (.returned _) => False
  | .filling point => point.Kept clean before places.temporary contents saving.disk
  | .replacing => Filled before places.temporary contents saving.disk
  | .sweeping _ => Filled before places.temporary contents saving.disk
  | .openingDirectory => Replaced before places.target contents saving.disk
  | .syncingDirectory => Replaced before places.target contents saving.disk
  | .returned (.ok ()) => Replaced before places.target contents saving.disk
  | .returned (.error _) => Restored clean before places.temporary saving.disk

/-- What a call of `save_new` has left so far. -/
def Saving.KeptNew (clean : Prop) (before : Disk ι) (places : Places ι) (contents : List UInt8)
    (saving : Saving ι) : Prop :=
  match saving.point with
  | .filling (.returned _) => False
  | .filling point => point.Kept clean before places.target contents saving.disk
  | .returned (.ok ()) => Filled before places.target contents saving.disk
  | .returned (.error _) => Restored clean before places.target saving.disk
  | _ => False

variable {places : Places ι} {saving saving' : Saving ι} {answer : Answer}

theorem Saving.Kept.filling {point : Filling}
    (h : Saving.Kept clean before places contents { disk, point := .filling point }) :
    point.Kept clean before places.temporary contents disk := by
  rcases point with _ | _ | _ | _ | result
  case returned => exact absurd h id
  all_goals exact h

theorem Saving.KeptNew.filling {point : Filling}
    (h : Saving.KeptNew clean before places contents { disk, point := .filling point }) :
    point.Kept clean before places.target contents disk := by
  rcases point with _ | _ | _ | _ | result
  case returned => exact absurd h id
  all_goals exact h

/-- **What one call of `save` leaves.** -/
theorem kept_of_saveStep (hremoves : clean → saving.Removes answer)
    (h : saveStep places saving answer = some saving')
    (hkept : saving.Kept clean before places contents) :
    saving'.Kept clean before places contents := by
  rcases saving with ⟨disk, point⟩
  rcases saving' with ⟨disk', point'⟩
  rcases moves_of_saveStep h with hfills | ⟨htemporary, htarget, hrename⟩ | _ | _ | _ | _ | _ | _ | _
  case fills point point' =>
    have hpoint' := hfills.kept hremoves hkept.filling
    rcases point' with _ | _ | _ | _ | (error | ⟨⟩)
    all_goals exact hpoint'
  case renamed i j =>
    obtain ⟨i', htemporary', hholding⟩ := hkept
    obtain rfl := Option.some.inj (htemporary.symm.trans htemporary')
    have hreplaced : Replaced before places.target contents disk' :=
      ⟨j, htarget, hholding.rename hrename⟩
    rw [Saving.Kept]
    dsimp only
    rcases places.directory with - | -
    all_goals exact hreplaced
  case swept =>
    have hfilled : Filled before places.temporary contents disk := hkept
    exact Or.inl hfilled.remove
  case notSwept why =>
    refine Or.inr ⟨fun hclean ↦ ?_, contents, hkept⟩
    have hdone : Answer.failed why = .done := hremoves hclean
    cases hdone
  all_goals exact hkept

/-- **What one call of `save_new` leaves.** -/
theorem keptNew_of_saveNewStep (hremoves : clean → saving.Removes answer)
    (h : saveNewStep places saving answer = some saving')
    (hkept : saving.KeptNew clean before places contents) :
    saving'.KeptNew clean before places contents := by
  rcases saving with ⟨disk, point⟩
  rcases saving' with ⟨disk', point'⟩
  obtain ⟨filling, filling', rfl, rfl, hfills⟩ := fills_of_saveNewStep h
  have hpoint' := hfills.kept hremoves hkept.filling
  rcases filling' with _ | _ | _ | _ | (error | ⟨⟩)
  all_goals exact hpoint'

/-! ### Runs -/

/-- The number of bytes there are to write. -/
def size (text : Except Error (List UInt8)) : Nat :=
  match text with
  | .ok contents => contents.length
  | .error _ => 0

/-- A call returns: where it has not yet, the system can answer, and it takes no more calls than there
are bytes and five, but those that are interrupted. -/
structure Returns (step : Saving ι → Answer → Option (Saving ι))
    (text : Except Error (List UInt8)) (answers : List Answer) (saving : Saving ι) : Prop where
  answered : (∃ result, saving.point = .returned result) ∨ ∃ answer, (step saving answer).isSome
  bounded : (answers.filter fun answer ↦ !answer.isIdle).length ≤ size text + 5

/-- What a call of `save` guarantees in every state it reaches: the target is as it was or holds the
whole text; where it has returned an error, and the system took the temporary away, the disk is as it
was; where it has returned without one, the target holds the text, and nothing else has changed. -/
structure Saves (places : Places ι) (text : Except Error (List UInt8)) (before : Disk ι)
    (answers : List Answer) (saving : Saving ι) : Prop where
  whole : ∀ j, places.target = some j → saving.disk j = before j ∨
    ∃ contents, text = .ok contents ∧ saving.disk j = some (.file privateMode contents)
  restored : Along (saveStep places) Saving.Removes (Saving.start text before) answers →
    ∀ error, saving.point = .returned (.error error) → saving.disk = before
  replaced : saving.point = .returned (.ok ()) →
    ∃ contents, text = .ok contents ∧ Replaced before places.target contents saving.disk

/-- What a call of `save_new` guarantees in every state it reaches: what was there is as it was; where
it has returned an error, and the system took away what it had created, the disk is as it was; where
it has returned without one, the target holds the text, and nothing was there. -/
structure SavesNew (places : Places ι) (text : Except Error (List UInt8)) (before : Disk ι)
    (answers : List Answer) (saving : Saving ι) : Prop where
  existing : ∀ j, before j ≠ none → saving.disk j = before j
  restored : Along (saveNewStep places) Saving.Removes (Saving.start text before) answers →
    ∀ error, saving.point = .returned (.error error) → saving.disk = before
  created : saving.point = .returned (.ok ()) →
    ∃ contents, text = .ok contents ∧ Filled before places.target contents saving.disk

variable {text : Except Error (List UInt8)} {answers : List Answer}

theorem Filled.of_ne_none (h : Filled before place bytes disk) {j : ι} (hj : before j ≠ none) :
    disk j = before j := by
  obtain ⟨i, -, hholding⟩ := h
  exact hholding.of_ne_none hj

theorem Filled.of_ne (h : Filled before place bytes disk) {j : ι} (hj : place ≠ some j) :
    disk j = before j := by
  obtain ⟨i, hplace, hholding⟩ := h
  exact hholding.of_ne fun heq ↦ hj (heq ▸ hplace)

theorem Restored.eq (h : Restored True before place disk) : disk = before :=
  h.resolve_right fun hor ↦ hor.1 trivial

/-- While a file is being filled, nothing else is touched. -/
theorem Filling.Kept.of_forall {P : Disk ι → Prop} {point : Filling} (hsame : P before)
    (hfilled : ∀ bytes disk, Filled before place bytes disk → P disk)
    (h : point.Kept clean before place contents disk) : P disk := by
  rcases point with _ | _ | _ | _ | (error | ⟨⟩)
  case opening =>
    obtain ⟨-, rfl⟩ := h
    exact hsame
  case writing =>
    obtain ⟨written, -, hwritten⟩ := h
    exact hfilled _ _ hwritten
  case syncing => exact hfilled _ _ h
  case removing =>
    obtain ⟨bytes, hbytes⟩ := h
    exact hfilled _ _ hbytes
  case returned.ok => exact hfilled _ _ h
  case returned.error =>
    rcases h with rfl | ⟨-, bytes, hbytes⟩
    · exact hsame
    · exact hfilled _ _ hbytes

theorem Restored.of_forall {P : Disk ι → Prop} (hsame : P before)
    (hfilled : ∀ bytes disk, Filled before place bytes disk → P disk)
    (h : Restored clean before place disk) : P disk := by
  rcases h with rfl | ⟨-, bytes, hbytes⟩
  · exact hsame
  · exact hfilled _ _ hbytes

/-- The target is as it was or holds the whole text. -/
theorem Saving.Kept.whole (h : saving.Kept clean before places contents)
    (hne : ∀ j, places.target = some j → places.temporary ≠ some j) {j : ι}
    (hj : places.target = some j) :
    saving.disk j = before j ∨ saving.disk j = some (.file privateMode contents) := by
  rcases saving with ⟨disk, point⟩
  have hfilled : ∀ bytes disk, Filled before places.temporary bytes disk → disk j = before j :=
    fun bytes disk h ↦ h.of_ne (hne j hj)
  have hreplaced : Replaced before places.target contents disk →
      disk j = some (.file privateMode contents) := by
    rintro ⟨j', hj', rfl⟩
    obtain rfl := Option.some.inj (hj.symm.trans hj')
    exact Function.update_self ..
  rcases point with point | _ | _ | _ | _ | (error | ⟨⟩)
  case filling =>
    exact Or.inl (h.filling.of_forall (P := fun disk ↦ disk j = before j) rfl hfilled)
  case replacing => exact Or.inl (hfilled _ _ h)
  case sweeping => exact Or.inl (hfilled _ _ h)
  case openingDirectory => exact Or.inr (hreplaced h)
  case syncingDirectory => exact Or.inr (hreplaced h)
  case returned.ok => exact Or.inr (hreplaced h)
  case returned.error =>
    exact Or.inl (Restored.of_forall (P := fun disk ↦ disk j = before j) rfl hfilled h)

/-- What was there is as it was. -/
theorem Saving.KeptNew.existing (h : saving.KeptNew clean before places contents) {j : ι}
    (hj : before j ≠ none) : saving.disk j = before j := by
  rcases saving with ⟨disk, point⟩
  have hfilled : ∀ bytes disk, Filled before places.target bytes disk → disk j = before j :=
    fun bytes disk h ↦ h.of_ne_none hj
  rcases point with point | _ | _ | _ | _ | (error | ⟨⟩)
  case filling =>
    exact h.filling.of_forall (P := fun disk ↦ disk j = before j) rfl hfilled
  case returned.ok => exact hfilled _ _ h
  case returned.error =>
    exact Restored.of_forall (P := fun disk ↦ disk j = before j) rfl hfilled h
  all_goals exact absurd h id

/-- A point of filling is never the last, and the system can always answer there. -/
theorem Filling.isSome_step {point : Filling} (h : ∀ result, point ≠ .returned result)
    (place : Option ι) (disk : Disk ι) : ∃ answer, (point.step place disk answer).isSome := by
  rcases point with contents | rest | _ | error | result
  case opening => exact ⟨.failed "", rfl⟩
  case writing => exact ⟨.failed "", rfl⟩
  case syncing => exact ⟨.done, rfl⟩
  case removing => exact ⟨.done, rfl⟩
  case returned => exact absurd rfl (h result)

theorem Saving.Kept.answered (h : saving.Kept clean before places contents) :
    (∃ result, saving.point = .returned result) ∨
      ∃ answer, (saveStep places saving answer).isSome := by
  rcases saving with ⟨disk, point | _ | _ | _ | _ | result⟩
  case filling =>
    have hpoint : ∀ result, point ≠ .returned result := by
      rintro result rfl
      exact h
    obtain ⟨answer, hanswer⟩ := Filling.isSome_step hpoint places.temporary disk
    exact Or.inr ⟨answer, Option.isSome_map.trans hanswer⟩
  case returned => exact Or.inl ⟨result, rfl⟩
  all_goals exact Or.inr ⟨.failed "", rfl⟩

theorem Saving.KeptNew.answered (h : saving.KeptNew clean before places contents) :
    (∃ result, saving.point = .returned result) ∨
      ∃ answer, (saveNewStep places saving answer).isSome := by
  rcases saving with ⟨disk, point | _ | _ | _ | _ | result⟩
  case filling =>
    have hpoint : ∀ result, point ≠ .returned result := by
      rintro result rfl
      exact h
    obtain ⟨answer, hanswer⟩ := Filling.isSome_step hpoint places.target disk
    exact Or.inr ⟨answer, Option.isSome_map.trans hanswer⟩
  case returned => exact Or.inl ⟨result, rfl⟩
  all_goals exact absurd h id

omit [DecidableEq ι] in
/-- What could not be rendered is returned before the disk is touched. -/
theorem run_unrendered {step : Saving ι → Answer → Option (Saving ι)} {error : Error}
    (hstuck : ∀ answer, step (Saving.start (.error error) before) answer = none)
    (h : run step (Saving.start (.error error) before) answers = some saving) :
    answers = [] ∧ saving.point = .returned (.error error) ∧ saving.disk = before := by
  obtain ⟨rfl, rfl⟩ := Transition.run_of_stuck hstuck h
  exact ⟨rfl, rfl, rfl⟩

omit [DecidableEq ι] in
theorem length_le_of_run {step : Saving ι → Answer → Option (Saving ι)}
    (hstep : ∀ s answer t, step s answer = some t →
      t.point.left + (if answer.isIdle then 0 else 1) ≤ s.point.left)
    (h : run step (Saving.start text before) answers = some saving) :
    (answers.filter fun answer ↦ !answer.isIdle).length ≤ size text + 5 := by
  have hnear : ∀ s answer t, step s answer = some t → True →
      True ∧ t.point.left + (if !answer.isIdle then 1 else 0) ≤ s.point.left := by
    intro s answer t ht _
    have hleft := hstep s answer t ht
    refine ⟨trivial, ?_⟩
    rcases hidle : answer.isIdle with - | -
    all_goals simpa [hidle] using hleft
  have hlength := (Transition.countP_add_left_le hnear h trivial).2
  rw [List.countP_eq_length_filter] at hlength
  have hstart : (Saving.start text before).point.left ≤ size text + 5 := by
    rcases text with error | contents
    · exact Nat.zero_le _
    · exact Nat.le_refl _
  omega

theorem returns_save (h : run (saveStep places) (Saving.start text before) answers = some saving) :
    Returns (saveStep places) text answers saving := by
  refine ⟨?_, length_le_of_run (fun s answer t ↦ left_le_of_saveStep) h⟩
  rcases text with error | contents
  · obtain ⟨-, hpoint, -⟩ := run_unrendered (fun _ ↦ rfl) h
    exact Or.inl ⟨_, hpoint⟩
  · have hkept : saving.Kept False before places contents :=
      Transition.run_invariant (fun s answer t hstep ↦ kept_of_saveStep (absurd · id) hstep) h ⟨rfl, rfl⟩
    exact hkept.answered

theorem returns_saveNew
    (h : run (saveNewStep places) (Saving.start text before) answers = some saving) :
    Returns (saveNewStep places) text answers saving := by
  refine ⟨?_, length_le_of_run (fun s answer t ↦ left_le_of_saveNewStep) h⟩
  rcases text with error | contents
  · obtain ⟨-, hpoint, -⟩ := run_unrendered (fun _ ↦ rfl) h
    exact Or.inl ⟨_, hpoint⟩
  · have hkept : saving.KeptNew False before places contents :=
      Transition.run_invariant (fun s answer t hstep ↦ keptNew_of_saveNewStep (absurd · id) hstep) h
        ⟨rfl, rfl⟩
    exact hkept.answered

/-- What a run of `save` leaves, where the temporary is not the target. -/
theorem saves_of_run (hne : ∀ j, places.target = some j → places.temporary ≠ some j)
    (h : run (saveStep places) (Saving.start text before) answers = some saving) :
    Saves places text before answers saving := by
  rcases text with error | contents
  · obtain ⟨-, hpoint, hdisk⟩ := run_unrendered (fun _ ↦ rfl) h
    refine ⟨fun j _ ↦ Or.inl (by rw [hdisk]), fun _ _ _ ↦ hdisk, fun hok ↦ ?_⟩
    rw [hpoint] at hok
    cases hok
  · have hkept : saving.Kept False before places contents :=
      Transition.run_invariant (fun s answer t hstep ↦ kept_of_saveStep (absurd · id) hstep) h ⟨rfl, rfl⟩
    refine ⟨fun j hj ↦ ?_, fun hremoves error herror ↦ ?_, fun hok ↦ ⟨contents, rfl, ?_⟩⟩
    · exact (hkept.whole hne hj).imp_right fun hfile ↦ ⟨contents, rfl, hfile⟩
    · have hclean : saving.Kept True before places contents :=
        Transition.run_invariant_along (fun s answer t hmeets hstep ↦
          kept_of_saveStep (fun _ ↦ hmeets) hstep) hremoves h ⟨rfl, rfl⟩
      rw [Saving.Kept, herror] at hclean
      exact Restored.eq hclean
    · rw [Saving.Kept, hok] at hkept
      exact hkept

/-- What a run of `save_new` leaves. -/
theorem savesNew_of_run
    (h : run (saveNewStep places) (Saving.start text before) answers = some saving) :
    SavesNew places text before answers saving := by
  rcases text with error | contents
  · obtain ⟨-, hpoint, hdisk⟩ := run_unrendered (fun _ ↦ rfl) h
    refine ⟨fun j _ ↦ by rw [hdisk], fun _ _ _ ↦ hdisk, fun hok ↦ ?_⟩
    rw [hpoint] at hok
    cases hok
  · have hkept : saving.KeptNew False before places contents :=
      Transition.run_invariant (fun s answer t hstep ↦ keptNew_of_saveNewStep (absurd · id) hstep) h
        ⟨rfl, rfl⟩
    refine ⟨fun j hj ↦ hkept.existing hj, fun hremoves error herror ↦ ?_,
      fun hok ↦ ⟨contents, rfl, ?_⟩⟩
    · have hclean : saving.KeptNew True before places contents :=
        Transition.run_invariant_along (fun s answer t hmeets hstep ↦
          keptNew_of_saveNewStep (fun _ ↦ hmeets) hstep) hremoves h ⟨rfl, rfl⟩
      rw [Saving.KeptNew, herror] at hclean
      exact Restored.eq hclean
    · rw [Saving.KeptNew, hok] at hkept
      exact hkept

end Steps

/-- **Saving is atomic at every failure.** Whatever the value, the serializers, the path, the disk and
the answers of the system: a call of `save` or `save_new` returns, and guarantees in every state it
reaches what `Saves` and `SavesNew` say. -/
theorem save_atomic {δ : Type*} [DecidableEq δ] (leadsTo : UnixPath.Path → Option δ) (stamp : Stamp)
    (path : String) (serializers : Serializers) (serialized : Except String Node) (key : String)
    (format : Format) (before : Disk (δ × List Char)) (answers : List Answer)
    (saving : Saving (δ × List Char)) :
    let places := placesOf leadsTo stamp path
    let text := rendered serializers serialized key format
    (run (saveStep places) (Saving.start text before) answers = some saving →
        Returns (saveStep places) text answers saving ∧ Saves places text before answers saving) ∧
      (run (saveNewStep places) (Saving.start text before) answers = some saving →
        Returns (saveNewStep places) text answers saving ∧
          SavesNew places text before answers saving) := by
  intro places text
  have hne : ∀ j, places.target = some j → places.temporary ≠ some j :=
    fun j hj hi ↦ temporary_ne_target leadsTo stamp path hi hj rfl
  exact ⟨fun h ↦ ⟨returns_save h, saves_of_run hne h⟩, fun h ↦ ⟨returns_saveNew h, savesNew_of_run h⟩⟩

/-! ### A save that fails half-way -/

/-- A serializer that knows one text. -/
def oneText : Serializers where
  enabled format := decide (format = .json)
  serialize _ _ := .ok "12"

/-- A disk with one file on it. -/
def oneFile : Disk (Unit × List Char) := fun i ↦
  if i = ((), ['a']) then some (.file 0o644 [0x30]) else none

/-- One byte is written, the next attempt is interrupted, and then the disk is full. -/
def halfWritten : List Answer :=
  [.done, .wrote 1, .interrupted, .failed "no space left on device", .done]

/-- The bytes there are to write. -/
def twelve : Except Error (List UInt8) :=
  rendered oneText (.ok (.node none [])) "db" .json

/-- Half a save, of a file and of a new one, leaves nothing. -/
theorem save_atomic_halfWritten :
    (∃ saving, run (saveStep (placesOf (fun _ ↦ some ()) ⟨1, 2, 3⟩ "a"))
        (Saving.start twelve oneFile) halfWritten = some saving ∧
      saving.point = .returned (.error (ioError "a" "no space left on device")) ∧
        saving.disk = oneFile) ∧
      ∃ saving, run (saveNewStep (placesOf (fun _ ↦ some ()) ⟨1, 2, 3⟩ "b"))
          (Saving.start twelve oneFile) halfWritten = some saving ∧
        saving.point = .returned (.error (ioError "b" "no space left on device")) ∧
          saving.disk = oneFile := by
  constructor
  · obtain ⟨saving, hrun, hpoint⟩ : ∃ saving,
        run (saveStep (placesOf (fun _ ↦ some ()) ⟨1, 2, 3⟩ "a")) (Saving.start twelve oneFile)
            halfWritten = some saving ∧
          saving.point = .returned (.error (ioError "a" "no space left on device")) := ⟨_, rfl, rfl⟩
    have hsaves := ((save_atomic (fun _ ↦ some ()) ⟨1, 2, 3⟩ "a" oneText (.ok (.node none [])) "db"
      .json oneFile halfWritten saving).1 hrun).2
    exact ⟨saving, hrun, hpoint, hsaves.restored (by decide) _ hpoint⟩
  · obtain ⟨saving, hrun, hpoint⟩ : ∃ saving,
        run (saveNewStep (placesOf (fun _ ↦ some ()) ⟨1, 2, 3⟩ "b")) (Saving.start twelve oneFile)
            halfWritten = some saving ∧
          saving.point = .returned (.error (ioError "b" "no space left on device")) := ⟨_, rfl, rfl⟩
    have hsaves := ((save_atomic (fun _ ↦ some ()) ⟨1, 2, 3⟩ "b" oneText (.ok (.node none [])) "db"
      .json oneFile halfWritten saving).2 hrun).2
    exact ⟨saving, hrun, hpoint, hsaves.restored (by decide) _ hpoint⟩

end Write

end DynamicConfig
