import DynamicConfig.Text.ShellWords

/-!
# The command an SSH fetch runs

A key is named by its path, and the path goes into `core.sshCommand`, which a shell takes apart. It
goes there in single quotes, so it is one word of the command whatever is in it.
-/

namespace DynamicConfig.Git

/-- How to authenticate an SSH fetch. A path is the text it is, and a lossy reading leaves that. -/
inductive SshAuth where
  | agent
  | key (path : String)
  | command (instead : String)
  deriving DecidableEq

/-- A path as one shell word. -/
def quoted (path : String) : String :=
  "'" ++ String.ofList (path.toList.flatMap fun c ↦
    if c = '\'' then ['\'', '\\', '\'', '\''] else [c]) ++ "'"

/-- The `core.sshCommand` value for this method, if it needs one: `command`. -/
def SshAuth.sshCommand : SshAuth → Option String
  | .agent => none
  | .key path => some ("ssh -i " ++ quoted path ++ " -o IdentitiesOnly=yes")
  | .command instead => some instead

theorem toList_quoted (path : String) : (quoted path).toList = Shell.quote path.toList := by
  simp only [quoted, String.toList_append, String.toList_ofList]
  rfl

/-- The command, word for word. -/
theorem foldl_step_sshCommand (path : String) :
    ("ssh".toList ++ ' ' :: ("-i".toList ++ ' ' :: (Shell.quote path.toList ++
        ' ' :: ("-o".toList ++ ' ' :: "IdentitiesOnly=yes".toList)))).foldl Shell.Reader.step .start =
      ⟨.plain, some "IdentitiesOnly=yes".toList,
        ["ssh".toList, "-i".toList, path.toList, "-o".toList]⟩ := by
  rw [Shell.Reader.start, List.foldl_append, Shell.foldl_step_bare (by decide) (by decide),
    List.foldl_cons, Shell.step_blank, List.foldl_append,
    Shell.foldl_step_bare (by decide) (by decide), List.foldl_cons, Shell.step_blank,
    List.foldl_append, Shell.foldl_step_quote, List.foldl_cons, Shell.step_blank, List.foldl_append,
    Shell.foldl_step_bare (by decide) (by decide), List.foldl_cons, Shell.step_blank,
    Shell.foldl_step_bare (by decide) (by decide)]
  rfl

/-- **The path of a key is one shell word**, and the command is four words beside it. -/
theorem words_sshCommand (path : String) :
    (SshAuth.key path).sshCommand.bind Shell.words =
      some ["ssh", "-i", path, "-o", "IdentitiesOnly=yes"] := by
  have hcommand : ("ssh -i " ++ quoted path ++ " -o IdentitiesOnly=yes").toList =
      "ssh".toList ++ ' ' :: ("-i".toList ++ ' ' :: (Shell.quote path.toList ++
        ' ' :: ("-o".toList ++ ' ' :: "IdentitiesOnly=yes".toList))) := by
    rw [String.toList_append, String.toList_append, toList_quoted, List.append_assoc]
    rfl
  show Shell.words ("ssh -i " ++ quoted path ++ " -o IdentitiesOnly=yes") = _
  rw [Shell.words, hcommand, foldl_step_sshCommand]
  show some [String.ofList "ssh".toList, String.ofList "-i".toList, String.ofList path.toList,
    String.ofList "-o".toList, String.ofList "IdentitiesOnly=yes".toList] = _
  rw [String.ofList_toList, String.ofList_toList, String.ofList_toList, String.ofList_toList,
    String.ofList_toList]

end DynamicConfig.Git
