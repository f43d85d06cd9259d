import StyleAssets.Log
import StyleAssets.Text.Basic

/-!
# Speaking at once

A log is a value that is written out in the end. Here the same is said at once: an action writes
each line when it comes to it, and looks at the flags of the program before it writes a line of
detail.

* `Console` — the flags and the two streams; `Console.say`, `Console.line`, `Console.mention` and
  `Console.print` are all that actions do to it.
* `Says` — whatever the console, an action has one answer, says one log and prints one text.
* `Says.bind` — what actions say one after the other; `Says.forM` is a loop.
* `Log.lines_quiet` — what is shown to those who do not ask for details.
-/

namespace StyleAssets

/-! ## Lines -/

namespace LogEntry

/-- Is the entry for those who ask for details only? -/
def isDebug : LogEntry → Bool
  | .tagged _ _ debug => debug
  | .bare _ => false

theorem isShown_eq (verbose : Bool) (entry : LogEntry) :
    entry.isShown verbose = (verbose || !entry.isDebug) := by
  cases entry with
  | tagged tag message debug => rfl
  | bare line => cases verbose <;> rfl

end LogEntry

namespace Log

/-- The lines that show a log. -/
def lines (verbose colour : Bool) (log : Log) : List String :=
  (log.filter (·.isShown verbose)).map (·.render colour)

@[simp] theorem lines_nil (verbose colour : Bool) : lines verbose colour [] = [] := rfl

@[simp] theorem lines_append (verbose colour : Bool) (log log' : Log) :
    lines verbose colour (log ++ log') = lines verbose colour log ++ lines verbose colour log' := by
  simp [lines]

/-- Those who ask for details are shown everything. -/
theorem lines_verbose (colour : Bool) (log : Log) :
    lines true colour log = log.map (·.render colour) := by
  have hall : ∀ entry : LogEntry, entry.isShown true = true := by
    intro entry
    rw [LogEntry.isShown_eq, Bool.true_or]
  rw [lines, List.filter_eq_self.2 fun entry _ => hall entry]

/-- Others are shown everything but the details. -/
theorem lines_quiet (colour : Bool) (log : Log) :
    lines false colour log = (log.filter (!·.isDebug)).map (·.render colour) := by
  have hsome : ∀ entry : LogEntry, entry.isShown false = !entry.isDebug := by
    intro entry
    rw [LogEntry.isShown_eq, Bool.false_or]
  simp [lines, hsome]

end Log

/-! ## The console -/

/-- Where a program speaks, if details are wanted and if colour is, and what it has written there.
-/
structure Console where
  verbose : Bool
  colour : Bool
  stderr : List String := []
  stdout : Text := []

/-- An action that may write to the console. -/
abbrev Speaking (α : Type) := StateM Console α

namespace Console

/-- Writes a line under a tag. -/
def say (tag message : String) : Speaking Unit :=
  modify fun k => { k with stderr := k.stderr ++ [(LogEntry.log tag message).render k.colour] }

/-- Writes a line without a tag. -/
def line (text : String) : Speaking Unit :=
  modify fun k => { k with stderr := k.stderr ++ [(LogEntry.bare text).render k.colour] }

/-- Writes a line under a tag if details are wanted. -/
def mention (tag message : String) : Speaking Unit := do
  if (← get).verbose then say tag message

/-- Writes to standard output. -/
def print (text : Text) : Speaking Unit :=
  modify fun k => { k with stdout := k.stdout ++ text }

/-- The console after a log has been shown and a text printed. -/
def after (k : Console) (log : Log) (printed : Text) : Console :=
  { k with stderr := k.stderr ++ log.lines k.verbose k.colour, stdout := k.stdout ++ printed }

@[simp] theorem after_nil (k : Console) : k.after [] [] = k := by
  simp [after]

@[simp] theorem after_after (k : Console) (log log' : Log) (printed printed' : Text) :
    (k.after log printed).after log' printed' = k.after (log ++ log') (printed ++ printed') := by
  simp [after]

end Console

/-! ## What actions say -/

/-- Whatever the console, the action has this answer, says this and prints this. -/
def Says {α : Type} (action : Speaking α) (answer : α) (log : Log) (printed : Text) : Prop :=
  ∀ k : Console, action.run k = (answer, k.after log printed)

namespace Says

variable {α β : Type} {action : Speaking α} {answer : α} {log log' : Log} {printed printed' : Text}

theorem pure (answer : α) : Says (Pure.pure answer) answer [] [] := by
  intro k
  rw [Console.after_nil]
  rfl

/-- **One action after the other.** -/
theorem bind {next : α → Speaking β} {last : β} (h : Says action answer log printed)
    (hnext : Says (next answer) last log' printed') :
    Says (action >>= next) last (log ++ log') (printed ++ printed') := by
  intro k
  show (next (action.run k).1).run (action.run k).2 = _
  rw [h k, hnext, Console.after_after]

/-- An action that prints nothing, before another one. -/
theorem then_ {next : α → Speaking β} {last : β} (h : Says action answer log [])
    (hnext : Says (next answer) last log' printed) :
    Says (action >>= next) last (log ++ log') printed :=
  h.bind hnext

/-- Something is made of the answer. -/
theorem return_ {f : α → β} (h : Says action answer log printed) :
    Says (do return f (← action)) (f answer) log printed := by
  have hreturn : Says (do return f (← action)) (f answer) (log ++ []) (printed ++ []) :=
    h.bind (pure (f answer))
  rwa [List.append_nil, List.append_nil] at hreturn

theorem say (tag message : String) : Says (Console.say tag message) () [.log tag message] [] := by
  intro k
  have hline : Log.lines k.verbose k.colour [.log tag message] =
      [(LogEntry.log tag message).render k.colour] := by
    simp [Log.lines, LogEntry.isShown, LogEntry.log]
  rw [Console.after, hline, List.append_nil]
  rfl

theorem line (text : String) : Says (Console.line text) () [.bare text] [] := by
  intro k
  rw [Console.after, List.append_nil]
  rfl

theorem mention (tag message : String) :
    Says (Console.mention tag message) () [.debug tag message] [] := by
  intro k
  show (if k.verbose then Console.say tag message else Pure.pure ()).run k = _
  cases hverbose : k.verbose with
  | true =>
    have hline : Log.lines k.verbose k.colour [.debug tag message] =
        Log.lines k.verbose k.colour [.log tag message] := by
      simp [Log.lines, LogEntry.isShown, LogEntry.log, LogEntry.debug, LogEntry.render, hverbose]
    rw [Console.after, hline]
    exact say tag message k
  | false =>
    have hnone : Log.lines k.verbose k.colour [.debug tag message] = [] := by
      simp [Log.lines, LogEntry.isShown, LogEntry.debug, hverbose]
    rw [Console.after, hnone, List.append_nil, List.append_nil]
    rfl

theorem print (text : Text) : Says (Console.print text) () [] text := by
  intro k
  rw [Console.after, Log.lines_nil, List.append_nil]
  rfl

/-- A loop that says one thing of each element. -/
theorem forM {act : α → Speaking Unit} {entry : α → LogEntry} (all : List α)
    (h : ∀ x, Says (act x) () [entry x] []) : Says (all.forM act) () (all.map entry) [] := by
  induction all with
  | nil => exact pure ()
  | cons x all ih => exact (h x).then_ ih

end Says

end StyleAssets
