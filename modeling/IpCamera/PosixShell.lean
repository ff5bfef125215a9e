/-
# Reading a command line (POSIX shell)

The quoting rules of the shell command language for one line: between single quotes every
character stands for itself, a backslash or double quotes protect the next character or
the text between them, and blanks end words.  `command` gives the words of a line that is
one simple command of literal words, and `none` for a line that is not: one with an
operator, a comment or an unfinished quote, or with an expansion, whose words depend on
more than the line.
-/
import Mathlib.Data.List.Basic
import Mathlib.Tactic

namespace PosixShell

/-- Where in a word the reader is: outside quotes, after a backslash, between single or double
quotes, or after a backslash between double quotes. -/
inductive Mode
  | plain
  | escape
  | single
  | double
  | doubleEscape
deriving DecidableEq, Repr

/-- The reader: the word it is in, if it is in one, and the words before. -/
structure State where
  mode : Mode
  word : Option (List Char)
  words : List (List Char)
deriving DecidableEq, Repr

namespace State

/-- Before the line. -/
def start : State := ⟨.plain, none, []⟩

/-- A character that stands for itself. -/
def push (s : State) (c : Char) : State := { s with word := some (s.word.getD [] ++ [c]) }

/-- An opening quote starts a word, if the reader is not in one. -/
def quote (s : State) : State := { s with word := some (s.word.getD []) }

/-- The end of a word. -/
def flush (s : State) : State := { s with word := none, words := s.words ++ s.word.toList }

end State

/-- Outside quotes these are operators, expansions or patterns. -/
def Special (c : Char) : Prop := c ∈ "|&;<>()$`\n*?[".toList

instance (c : Char) : Decidable (Special c) := inferInstanceAs (Decidable (_ ∈ _))

/-- One character of the line. -/
def step (s : State) (c : Char) : Option State :=
  match s.mode with
  | .plain =>
    if c = '\'' then some { s.quote with mode := .single }
    else if c = '"' then some { s.quote with mode := .double }
    else if c = '\\' then some { s with mode := .escape }
    else if c = ' ' ∨ c = '\t' then some s.flush
    else if Special c ∨ s.word = none ∧ (c = '#' ∨ c = '~') then none
    else some (s.push c)
  | .escape =>
    if c = '\n' then some { s with mode := .plain }
    else some { s.push c with mode := .plain }
  | .single =>
    if c = '\'' then some { s with mode := .plain }
    else some (s.push c)
  | .double =>
    if c = '"' then some { s with mode := .plain }
    else if c = '\\' then some { s with mode := .doubleEscape }
    else if c = '$' ∨ c = '`' then none
    else some (s.push c)
  | .doubleEscape =>
    if c = '\n' then some { s with mode := .double }
    else if c = '$' ∨ c = '`' ∨ c = '"' ∨ c = '\\' then some { s.push c with mode := .double }
    else some { (s.push '\\').push c with mode := .double }

def run (s : State) (l : List Char) : Option State := l.foldlM step s

/-- The words of a line that is one simple command of literal words. -/
def command (l : List Char) : Option (List (List Char)) :=
  (run State.start l).bind fun s => if s.mode = .plain then some s.flush.words else none

theorem run_nil (s : State) : run s [] = some s := rfl

theorem run_cons (s : State) (c : Char) (l : List Char) :
    run s (c :: l) = (step s c).bind fun s => run s l := rfl

theorem run_append (s : State) (l l' : List Char) :
    run s (l ++ l') = (run s l).bind fun s => run s l' := by
  unfold run
  rw [List.foldlM_append]
  rfl

/-! ## Words -/

/-- A character that outside quotes stands for itself everywhere. -/
def Ordinary (c : Char) : Prop := ¬ Special c ∧ c ∉ "'\"\\ \t#~".toList

instance (c : Char) : Decidable (Ordinary c) := inferInstanceAs (Decidable (_ ∧ _))

theorem step_ordinary {c : Char} (hc : Ordinary c) (word : Option (List Char))
    (words : List (List Char)) :
    step ⟨.plain, word, words⟩ c = some ⟨.plain, some (word.getD [] ++ [c]), words⟩ := by
  obtain ⟨hspecial, hc⟩ := hc
  have hne : c ≠ '\'' ∧ c ≠ '"' ∧ c ≠ '\\' ∧ c ≠ ' ' ∧ c ≠ '\t' ∧ c ≠ '#' ∧ c ≠ '~' := by
    simpa using hc
  obtain ⟨hsingle, hdouble, hback, hblank, htab, hhash, htilde⟩ := hne
  simp only [step, hsingle, hdouble, hback, hblank, htab, hspecial, hhash, htilde, or_self,
    and_false, if_false]
  rfl

theorem run_ordinary {t : List Char} (ht : ∀ c ∈ t, Ordinary c) (w : List Char)
    (words : List (List Char)) :
    run ⟨.plain, some w, words⟩ t = some ⟨.plain, some (w ++ t), words⟩ := by
  induction t generalizing w with
  | nil => rw [run_nil, List.append_nil]
  | cons c t ih =>
    rw [run_cons, step_ordinary (ht c List.mem_cons_self), Option.bind_some,
      ih fun d hd => ht d (List.mem_cons_of_mem c hd), Option.getD_some, List.append_assoc,
      List.singleton_append]

/-- A word of ordinary characters and the blank behind it. -/
theorem run_word {t : List Char} (ht : ∀ c ∈ t, Ordinary c) (hne : t ≠ [])
    (words : List (List Char)) :
    run ⟨.plain, none, words⟩ (t ++ [' ']) = some ⟨.plain, none, words ++ [t]⟩ := by
  cases t with
  | nil => exact absurd rfl hne
  | cons c t =>
    rw [run_append, run_cons, step_ordinary (ht c List.mem_cons_self), Option.bind_some,
      run_ordinary fun d hd => ht d (List.mem_cons_of_mem c hd)]
    rfl

theorem run_words {ts : List (List Char)} (hts : ∀ t ∈ ts, t ≠ [] ∧ ∀ c ∈ t, Ordinary c)
    (words : List (List Char)) :
    run ⟨.plain, none, words⟩ (ts.flatMap fun t => t ++ [' '])
      = some ⟨.plain, none, words ++ ts⟩ := by
  induction ts generalizing words with
  | nil => rw [List.flatMap_nil, run_nil, List.append_nil]
  | cons t ts ih =>
    obtain ⟨hne, ht⟩ := hts t List.mem_cons_self
    rw [List.flatMap_cons, run_append, run_word ht hne, Option.bind_some,
      ih fun u hu => hts u (List.mem_cons_of_mem t hu), List.append_assoc, List.singleton_append]

/-- Between single quotes every other character stands for itself. -/
theorem run_single {t : List Char} (ht : '\'' ∉ t) (w : List Char) (words : List (List Char)) :
    run ⟨.single, some w, words⟩ t = some ⟨.single, some (w ++ t), words⟩ := by
  induction t generalizing w with
  | nil => rw [run_nil, List.append_nil]
  | cons c t ih =>
    obtain ⟨hc, ht⟩ := not_or.mp (fun h => ht (List.mem_cons.mpr h))
    have hstep : step ⟨.single, some w, words⟩ c = some ⟨.single, some (w ++ [c]), words⟩ := by
      rw [step]
      dsimp only
      rw [if_neg fun h => hc h.symm]
      rfl
    rw [run_cons, hstep, Option.bind_some, ih ht, List.append_assoc, List.singleton_append]

/-- A line of words and one last argument between single quotes. -/
theorem command_quoted {ts : List (List Char)} (hts : ∀ t ∈ ts, t ≠ [] ∧ ∀ c ∈ t, Ordinary c)
    {arg : List Char} (harg : '\'' ∉ arg) :
    command ((ts.flatMap fun t => t ++ [' ']) ++ ('\'' :: (arg ++ ['\''])))
      = some (ts ++ [arg]) := by
  have hopen : step ⟨.plain, none, ts⟩ '\'' = some ⟨.single, some [], ts⟩ := rfl
  have hclose : run ⟨.single, some arg, ts⟩ ['\''] = some ⟨.plain, some arg, ts⟩ := rfl
  rw [command, run_append, State.start, run_words hts, Option.bind_some, List.nil_append, run_cons,
    hopen, Option.bind_some, run_append, run_single harg, Option.bind_some, List.nil_append, hclose,
    Option.bind_some]
  rfl

/-! ## Single quotes are never part of a word -/

/-- No word so far has a single quote in it. -/
def State.Unquoted (s : State) : Prop := (∀ w ∈ s.word, '\'' ∉ w) ∧ ∀ w ∈ s.words, '\'' ∉ w

namespace State.Unquoted

variable {s : State}

theorem getD (h : s.Unquoted) : '\'' ∉ s.word.getD [] := by
  cases hword : s.word with
  | none => exact List.not_mem_nil
  | some w => exact h.1 w hword

theorem push (h : s.Unquoted) {c : Char} (hc : c ≠ '\'') : (s.push c).Unquoted := by
  refine ⟨?_, h.2⟩
  rintro w ⟨⟩ hmem
  rcases List.mem_append.mp hmem with hmem | hmem
  · exact h.getD hmem
  · exact hc (List.mem_singleton.mp hmem).symm

theorem quote (h : s.Unquoted) : s.quote.Unquoted := by
  refine ⟨?_, h.2⟩
  rintro w ⟨⟩
  exact h.getD

theorem flush (h : s.Unquoted) : s.flush.Unquoted := by
  refine ⟨fun w hw => absurd hw (by simp [State.flush]), ?_⟩
  intro w hw
  rcases List.mem_append.mp hw with hw | hw
  · exact h.2 w hw
  · exact h.1 w (by simpa using hw)

/-- Outside quotes and between single quotes a single quote only opens or closes them. -/
theorem step (h : s.Unquoted) (hmode : s.mode = .plain ∨ s.mode = .single) {c : Char} {s' : State}
    (hstep : PosixShell.step s c = some s') : s'.Unquoted := by
  have hmodes : ∀ {t : State}, t.Unquoted → ∀ m, ({ t with mode := m } : State).Unquoted :=
    fun ht _ => ⟨ht.1, ht.2⟩
  by_cases hc : c = '\''
  · subst hc
    rcases hmode with hmode | hmode
    · rw [PosixShell.step, hmode] at hstep
      exact Option.some.inj hstep ▸ hmodes h.quote _
    · rw [PosixShell.step, hmode] at hstep
      exact Option.some.inj hstep ▸ hmodes h _
  · rcases hmode with hmode | hmode
    · rw [PosixShell.step, hmode] at hstep
      dsimp only at hstep
      rw [if_neg hc] at hstep
      split at hstep
      · exact Option.some.inj hstep ▸ hmodes h.quote _
      split at hstep
      · exact Option.some.inj hstep ▸ hmodes h _
      split at hstep
      · exact Option.some.inj hstep ▸ h.flush
      split at hstep
      · cases hstep
      · exact Option.some.inj hstep ▸ h.push hc
    · rw [PosixShell.step, hmode] at hstep
      dsimp only at hstep
      rw [if_neg hc] at hstep
      exact Option.some.inj hstep ▸ h.push hc

end State.Unquoted

end PosixShell
