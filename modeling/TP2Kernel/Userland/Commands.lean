import TP2Kernel.Stdlib.StringOrder
import TP2Kernel.Terminal.Session

/-! # Commands (`Userland/c/terminal.c`)

    The terminal reads a line into an array of `COMMAND_MAX_LENGTH` bytes, and runs the program
    of its table that has this name.

    A line that is too long for the array is cut, and a line with a NUL ends there for
    `streql`.  Neither makes the terminal take a line for the name of a program that it is not.
-/

namespace TP2Kernel

open Transition Kernel

def COMMAND_MAX_LENGTH : UInt64 := 256

/-- The programs that the terminal includes. -/
inductive EntryPoint where
  | help
  | sayHello
  | clear
  | poweroff
  | beep
  | piano
  | reboot
  | scroll
  | getTime
  | sleep
  | testMQ
  | game
  | ps
  | ipcs
  deriving DecidableEq

structure Command where
  name : List UInt8
  entryPoint : EntryPoint
  deriving DecidableEq

/-- The names are `help`, `hello`, `clear`, `poweroff`, `beep`, `piano`, `reboot`, `scroll`,
    `time`, `sleep`, `mq`, `game`, `ps` and `ipcs`. -/
def commandsList : List Command :=
  [⟨[104, 101, 108, 112], .help⟩,
    ⟨[104, 101, 108, 108, 111], .sayHello⟩,
    ⟨[99, 108, 101, 97, 114], .clear⟩,
    ⟨[112, 111, 119, 101, 114, 111, 102, 102], .poweroff⟩,
    ⟨[98, 101, 101, 112], .beep⟩,
    ⟨[112, 105, 97, 110, 111], .piano⟩,
    ⟨[114, 101, 98, 111, 111, 116], .reboot⟩,
    ⟨[115, 99, 114, 111, 108, 108], .scroll⟩,
    ⟨[116, 105, 109, 101], .getTime⟩,
    ⟨[115, 108, 101, 101, 112], .sleep⟩,
    ⟨[109, 113], .testMQ⟩,
    ⟨[103, 97, 109, 101], .game⟩,
    ⟨[112, 115], .ps⟩,
    ⟨[105, 112, 99, 115], .ipcs⟩]

namespace Memory

/-- The loop of `matchCommand`, at the `i`-th command; the names that are left lie at `names`. -/
def matchLoop (m : Memory) (command : Addr) : List Addr → Int → Option Int
  | [], _ => some (-1)
  | name :: names, i =>
    match m.streql command name with
    | none => none
    | some equal => if equal ≠ 0 then some i else matchLoop m command names (i + 1)

def matchCommand (m : Memory) (names : List Addr) (command : Addr) : Option Int :=
  m.matchLoop command names 0

/-- What `terminalMain` runs after a call of `readLine`; nothing for the index `-1`. -/
def commandToRun (m : Memory) (names : List Addr) (command : Addr) : Option (Option EntryPoint) :=
  (m.matchCommand names command).map fun index =>
    if index ≥ 0 then (commandsList[index.toNat]?).map Command.entryPoint else none

end Memory

/-- The line up to its NUL, if it has one. -/
def typedWord (line : List UInt8) : List UInt8 := line.takeWhile (· ≠ 0)

/-- The table's strings. -/
def NamesLie (m : Memory) (names : List Addr) : Prop :=
  List.Forall₂ (fun name command => LiesAt m name (command.name ++ [0])) names commandsList

/-- One of them contains this address. -/
def InNames (names : List Addr) (x : Addr) : Prop :=
  ∃ p ∈ names.zip commandsList, (x - p.1).toNat < p.2.name.length + 1

/-- The array of the terminal, with nothing of the table in it. -/
structure CommandArray (names : List Addr) (buffer : Addr) (buffSize : UInt64) : Prop where
  size : buffSize = COMMAND_MAX_LENGTH
  apart : ∀ x, InNames names x → ¬ (x - buffer).toNat < buffSize.toNat

/-- Lines are read into the terminal's array, and nobody else writes into the table. -/
def ReadsCommands (names : List Addr) (s : Session) : SessionAction → Prop
  | .readLine buffer buffSize => CommandArray names buffer buffSize
  | .write mem => ∀ x, InNames names x → mem x = s.kernel.mem x
  | _ => True

/-- A session with the terminal. -/
def terminal (reader : UInt64) (names : List Addr) : System Session SessionAction where
  init := fun s => Session.Start reader s ∧ NamesLie s.kernel.mem names
  step := fun s action s' => NoBackspace s action ∧ ReadsCommands names s action ∧
    (session reader).step s action s'

/-- The program with this name is found and run, and otherwise none. -/
structure RunsCommand (index : Int) (ran : Option EntryPoint) (line : List UInt8) : Prop where
  index : (∃ k, ∃ hk : k < commandsList.length, index = k ∧
      commandsList[k].name = typedWord line) ∨
    index = -1 ∧ ∀ command ∈ commandsList, command.name ≠ typedWord line
  runs : ∀ command ∈ commandsList, ran = some command.entryPoint ↔ command.name = typedWord line
  unknown : ran = none ↔ ∀ command ∈ commandsList, command.name ≠ typedWord line

/-! ### The table -/

/-- No name fills the array, and none has a NUL in it. -/
theorem commandsList_names : ∀ command ∈ commandsList,
    command.name.length + 1 < COMMAND_MAX_LENGTH.toNat ∧ ∀ c ∈ command.name, c ≠ 0 := by
  decide +kernel

/-- Each program has one name. -/
theorem commandsList_injective : ∀ command ∈ commandsList, ∀ other ∈ commandsList,
    (command.entryPoint = other.entryPoint ↔ command.name = other.name) := by
  decide +kernel

theorem NamesLie.congr {m m' : Memory} {names : List Addr} (h : NamesLie m names)
    (hmem : ∀ x, InNames names x → m' x = m x) : NamesLie m' names := by
  unfold NamesLie at h ⊢
  rw [List.forall₂_iff_zip] at h ⊢
  refine ⟨h.1, ?_⟩
  intro name command hzip i hi
  have hcommand := commandsList_names command (List.of_mem_zip hzip).2
  rw [← h.2 hzip i hi]
  apply hmem
  refine ⟨_, hzip, ?_⟩
  have hlen : i < command.name.length + 1 := by simpa using hi
  have hoffset : (name + UInt64.ofNat i - name).toNat = i :=
    (addr_sub_toNat_eq_iff (by
      have hmax : COMMAND_MAX_LENGTH.toNat = 256 := rfl
      omega)).mpr rfl
  rw [hoffset]
  exact hlen

/-! ### A line and the table -/

/-- A string ends at its first NUL. -/
theorem liesAt_typedWord {m : Memory} {a : Addr} {line : List UInt8}
    (h : LiesAt m a (line ++ [0])) : LiesAt m a (typedWord line ++ [0]) := by
  induction line generalizing a with
  | nil => exact h
  | cons c line ih =>
    obtain ⟨hfirst, hrest⟩ := liesAt_cons.mp h
    unfold typedWord
    by_cases hc : c = 0
    · rw [List.takeWhile_cons_of_neg (by simpa using hc)]
      refine liesAt_cons.mpr ⟨hfirst.trans hc, ?_⟩
      exact fun i hi => absurd hi (Nat.not_lt_zero i)
    · rw [List.takeWhile_cons_of_pos (by simpa using hc)]
      exact liesAt_cons.mpr ⟨hfirst, ih hrest⟩

theorem typedWord_ne_zero {line : List UInt8} : ∀ c ∈ typedWord line, c ≠ 0 := by
  intro c hc
  simpa using List.mem_takeWhile_imp hc

/-- A line that was cut is longer than any name. -/
theorem typedWord_take {line name : List UInt8} {n : Nat} (hname : name.length < n) :
    typedWord (line.take n) = name ↔ typedWord line = name := by
  have htake : typedWord (line.take n) = (typedWord line).take n := by
    unfold typedWord
    exact List.take_takeWhile.symm
  rw [htake]
  constructor
  · intro heq
    have hlen := congrArg List.length heq
    rw [List.length_take] at hlen
    rw [← heq, List.take_of_length_le (by omega)]
  · intro heq
    rw [heq, List.take_of_length_le hname.le]

theorem streql_name {m : Memory} {command name : Addr} {word nameBytes : List UInt8}
    (hword : LiesAt m command (word ++ [0])) (hchars : ∀ c ∈ word, c ≠ 0)
    (hlen : word.length < walkBound) (hname : LiesAt m name (nameBytes ++ [0]))
    (hnameChars : ∀ c ∈ nameBytes, c ≠ 0) :
    m.streql command name = some (if word = nameBytes then 1 else 0) := by
  have hloop := Walk.streqlLoop ⟨hword, hname, hchars, hnameChars⟩ hlen
  unfold Memory.streql
  rw [hloop]
  by_cases heq : word = nameBytes
  · rw [if_pos heq, if_pos ((streqlBytes_iff _ _).mpr heq)]
  · rw [if_neg heq, if_neg fun htrue => heq ((streqlBytes_iff _ _).mp htrue)]

/-- The loop finds the first command with the name, by induction on the table. -/
theorem matchLoop_eq {m : Memory} {command : Addr} {word : List UInt8}
    (hword : LiesAt m command (word ++ [0])) (hchars : ∀ c ∈ word, c ≠ 0)
    (hlen : word.length < walkBound) {names : List Addr} {commands : List Command}
    (hnames : List.Forall₂ (fun name command => LiesAt m name (command.name ++ [0]))
      names commands)
    (hnonul : ∀ command ∈ commands, ∀ c ∈ command.name, c ≠ 0) (i : Int) :
    (∃ k, ∃ hk : k < commands.length, m.matchLoop command names i = some (i + k) ∧
      commands[k].name = word) ∨
    (m.matchLoop command names i = some (-1) ∧ ∀ command ∈ commands, command.name ≠ word) := by
  induction hnames generalizing i with
  | nil => exact .inr ⟨rfl, fun command hmem => absurd hmem List.not_mem_nil⟩
  | @cons name first names commands hfirst hrest ih =>
    have hstreql := streql_name hword hchars hlen hfirst (hnonul first List.mem_cons_self)
    unfold Memory.matchLoop
    rw [hstreql]
    by_cases heq : word = first.name
    · left
      refine ⟨0, Nat.zero_lt_succ _, ?_, heq.symm⟩
      simp [heq]
    · have hnext := ih (fun command hmem => hnonul command (List.mem_cons_of_mem _ hmem)) (i + 1)
      simp only [if_neg heq, ne_eq, not_true, if_false]
      rcases hnext with ⟨k, hk, hloop, hname⟩ | ⟨hloop, hnone⟩
      · left
        refine ⟨k + 1, Nat.succ_lt_succ hk, ?_, hname⟩
        rw [hloop, Int.add_assoc, Int.add_comm 1]
        rfl
      · right
        refine ⟨hloop, ?_⟩
        intro command hmem
        rcases List.mem_cons.mp hmem with rfl | hmem
        · exact fun h => heq h.symm
        · exact hnone command hmem

/-- The terminal compares what the array holds with the names, and finds what was typed. -/
theorem commandToRun_runsCommand {m : Memory} {names : List Addr} {command : Addr}
    {line : List UInt8} (hline : LiesAt m command (storedLine line COMMAND_MAX_LENGTH ++ [0]))
    (hnames : NamesLie m names) :
    ∃ index ran, m.matchCommand names command = some index ∧
      m.commandToRun names command = some ran ∧ RunsCommand index ran line := by
  have hsame : ∀ c ∈ commandsList, c.name = typedWord (storedLine line COMMAND_MAX_LENGTH) ↔
      c.name = typedWord line := by
    intro c hc
    rw [eq_comm, storedLine, typedWord_take (by have := commandsList_names c hc; omega), eq_comm]
  have hlen : (typedWord (storedLine line COMMAND_MAX_LENGTH)).length < walkBound := by
    have hmax : COMMAND_MAX_LENGTH.toNat = 256 := rfl
    have htake : (storedLine line COMMAND_MAX_LENGTH).length ≤ 255 := by
      rw [storedLine, List.length_take, hmax]
      omega
    have hword := (List.takeWhile_prefix (· ≠ 0) (l :=
      storedLine line COMMAND_MAX_LENGTH)).length_le
    unfold walkBound typedWord
    omega
  have hloop := matchLoop_eq (liesAt_typedWord hline) typedWord_ne_zero hlen hnames
    (fun c hc => (commandsList_names c hc).2) 0
  unfold Memory.commandToRun Memory.matchCommand
  rcases hloop with ⟨k, hk, hloop, hname⟩ | ⟨hloop, hnone⟩
  · have hmem : commandsList[k] ∈ commandsList := List.getElem_mem hk
    have hname' := (hsame _ hmem).mp hname
    rw [Int.zero_add] at hloop
    refine ⟨k, some commandsList[k].entryPoint, hloop, ?_, .inl ⟨k, hk, rfl, hname'⟩, ?_, ?_⟩
    · rw [hloop, Option.map_some, if_pos (Int.natCast_nonneg k), Int.toNat_natCast,
        List.getElem?_eq_getElem hk]
      rfl
    · intro c hc
      rw [Option.some_inj, commandsList_injective _ hmem c hc, hname', eq_comm]
    · exact ⟨by simp, fun hno => absurd hname' (hno _ hmem)⟩
  · have hno : ∀ c ∈ commandsList, c.name ≠ typedWord line :=
      fun c hc hname => hnone c hc ((hsame c hc).mpr hname)
    refine ⟨-1, none, hloop, ?_, .inr ⟨rfl, hno⟩, ?_, ?_⟩
    · rw [hloop]
      rfl
    · exact fun c hc => ⟨by simp, fun hname => absurd hname (hno c hc)⟩
    · exact ⟨fun _ => hno, fun _ => rfl⟩

/-! ### The steps -/

/-- The call of `readLine`, if there is one, is for the terminal's array. -/
def LineReader.ForCommand (names : List Addr) : LineReader → Prop
  | .idle => True
  | .line buffer buffSize _ | .clean buffer buffSize _ => CommandArray names buffer buffSize

/-- The table is as it was, in the calls that have returned as well. -/
structure TerminalInv (names : List Addr) (s : Session) : Prop where
  table : NamesLie s.kernel.mem names
  program : s.program.ForCommand names
  returned : ∀ call ∈ s.returned, call.buffSize = COMMAND_MAX_LENGTH ∧ NamesLie call.mem names

namespace TerminalInv

variable {reader : UInt64} {names : List Addr} {s s' : Session}

/-- A byte of the array is none of the table's. -/
theorem namesLie_update {buffer : Addr} {buffSize i : UInt64} {m : Memory}
    (h : NamesLie m names) (harray : CommandArray names buffer buffSize)
    (hi : i.toNat < buffSize.toNat) (c : UInt8) :
    NamesLie (Function.update m (buffer + i) c) names := by
  apply h.congr
  intro x hx
  apply Function.update_of_ne
  rintro rfl
  apply harray.apart _ hx
  rwa [UInt64.add_comm, UInt64.add_sub_cancel]

theorem returns (h : TerminalInv names s) {buffer : Addr} {buffSize i : UInt64}
    (harray : CommandArray names buffer buffSize) :
    TerminalInv names (s.returns buffer buffSize i) := by
  refine ⟨h.table, trivial, ?_⟩
  intro call hcall
  rcases List.mem_append.mp hcall with hold | hnew
  · exact h.returned call hold
  · rw [List.mem_singleton.mp hnew]
    exact ⟨harray.size, h.table⟩

theorem gotChar (h : TerminalInv names s) {part : List UInt8}
    (hreads : s.program.Reads s.kernel.mem part) (c : UInt8) :
    TerminalInv names (s.gotChar c) := by
  have harray := h.program
  unfold Session.gotChar
  cases hs : s.program with
  | idle => exact h
  | line buffer buffSize i =>
    rw [hs] at hreads harray
    obtain ⟨-, hlt, hi, -⟩ := hreads
    have hsmall : i.toNat < buffSize.toNat := by
      have hlast := buffSize.toNat_lt
      rw [hi, UInt64.toNat_ofNat_of_lt' (by show _ < 2 ^ 64; omega)]
      exact hlt
    dsimp only
    split
    · exact ⟨namesLie_update h.table harray hsmall c, harray, h.returned⟩
    · have hended : TerminalInv names
          (s.withMem (Function.update s.kernel.mem (buffer + i) 0)) :=
        ⟨namesLie_update h.table harray hsmall 0, h.program, h.returned⟩
      split
      · exact ⟨hended.table, harray, h.returned⟩
      · exact hended.returns harray
  | clean buffer buffSize i =>
    rw [hs] at harray
    dsimp only
    split
    · exact h
    · exact h.returns harray

/-- `getchar` takes its next step. -/
theorem program_step (h : TerminalInv names s) {lines : List (List UInt8)}
    {part pending l : List UInt8} (hinv : SessionInv reader s lines part pending l)
    (hstep : (session reader).step s .program s') : TerminalInv names s' := by
  obtain ⟨hturn, hne, hstep⟩ := hstep
  by_cases hidle : s.receiving = .idle
  · rw [hidle] at hstep
    obtain ⟨junk, hstep⟩ := hstep
    obtain ⟨call, sched, hwait, -⟩ := hinv.stdin.toOpenEntry.waits hturn hinv.index
    rw [hwait] at hstep
    rw [hstep]
    exact ⟨h.table, h.program, h.returned⟩
  · split at hstep
    · next heq => exact absurd heq hidle
    · obtain ⟨sched, tty, p', got, l', hinput, -, -, -⟩ :=
        hinv.stdin.getchar_step hinv.holds hinv.receiving hidle
      rw [hstep]
      by_cases hreturned : p' = .idle
      · subst hreturned
        rw [s.receive_returned hinput]
        have hcall : TerminalInv names { s with
            kernel := { s.kernel with sched := sched, tty := tty }
            result := got.getD s.result
            receiving := .idle } := ⟨h.table, h.program, h.returned⟩
        exact hcall.gotChar hinv.program _
      · rw [s.receive_call hinput hreturned]
        exact ⟨h.table, h.program, h.returned⟩

theorem step {action : SessionAction} (h : TerminalInv names s) {lines : List (List UInt8)}
    {part pending l : List UInt8} (hinv : SessionInv reader s lines part pending l)
    (hstep : (terminal reader names).step s action s') : TerminalInv names s' := by
  obtain ⟨-, hok, hstep⟩ := hstep
  cases action with
  | key scanCode =>
    obtain rfl := hstep
    unfold Session.attendKeyboard
    cases s.keyboardMode <;> exact ⟨h.table, h.program, h.returned⟩
  | changeMode mode =>
    obtain ⟨keyboardMode, hmode⟩ := s.changeMode_eq mode
    obtain rfl := hstep
    rw [hmode]
    exact ⟨h.table, h.program, h.returned⟩
  | readLine buffer buffSize =>
    obtain ⟨-, -, -, rfl⟩ := hstep
    exact ⟨h.table, hok, h.returned⟩
  | program => exact h.program_step hinv hstep
  | preempt =>
    obtain ⟨t, hpre, rfl⟩ := hstep
    refine ⟨?_, h.program, h.returned⟩
    show NamesLie t.mem names
    rw [hpre.mem]
    exact h.table
  | write mem =>
    obtain ⟨-, rfl⟩ := hstep
    exact ⟨h.table.congr hok, h.program, h.returned⟩

end TerminalInv

/-! ### The result -/

theorem terminal_session {reader : UInt64} {names : List Addr} {s : Session}
    (h : (terminal reader names).Reachable s) :
    ((session reader).restrict NoBackspace).Reachable s := by
  induction h with
  | init hinit => exact .init hinit.1
  | step action _ hstep ih => exact .step action ih ⟨hstep.1, hstep.2.2⟩

theorem terminalInv_reachable {reader : UInt64} {names : List Addr} {s : Session}
    (h : (terminal reader names).Reachable s) : TerminalInv names s := by
  induction h with
  | init hinit =>
    obtain ⟨hstart, hnames⟩ := hinit
    refine ⟨hnames, ?_, ?_⟩
    · rw [hstart.program]
      trivial
    · rw [hstart.returned]
      exact fun call hcall => absurd hcall List.not_mem_nil
  | step action hreach hstep ih =>
    obtain ⟨lines, part, pending, l, hinv⟩ := sessionInv_reachable (terminal_session hreach)
    exact ih.step hinv hstep

/-- **The terminal runs what was typed**, as `stdin` took it.  As long as nobody presses the
    backspace, whatever the keyboard and the scheduler interrupt: the calls of `readLine` that
    have returned took the lines of the text in order, and after each of them `matchCommand`
    finds the index of the line in the table and the terminal runs the program that it names,
    or the index is `-1` and it runs none. -/
theorem typed_commands_run {reader : UInt64} {names : List Addr} {s : Session}
    (h : (terminal reader names).Reachable s) :
    ∃ lines rest, s.text = joinLines lines ++ rest ∧ (∀ line ∈ lines, 10 ∉ line) ∧
      List.Forall₂ (fun call line => ∃ index ran,
        call.mem.matchCommand names call.buffer = some index ∧
        call.mem.commandToRun names call.buffer = some ran ∧ RunsCommand index ran line)
        s.returned lines := by
  obtain ⟨lines, part, pending, l, hinv⟩ := sessionInv_reachable (terminal_session h)
  refine ⟨lines, part ++ pending ++ l, ?_, hinv.newlines, ?_⟩
  · rw [hinv.text]
    simp only [List.append_assoc]
  have hboth := (List.forall₂_and_left _ _).mpr
    ⟨(terminalInv_reachable h).returned, hinv.returned⟩
  refine hboth.imp ?_
  intro call line hcall
  obtain ⟨⟨hsize, hnames⟩, hlies, -⟩ := hcall
  rw [hsize] at hlies
  exact commandToRun_runsCommand hlies hnames

/-! ### A line with a command -/

theorem gotChar_text (s : Session) (c : UInt8) : (s.gotChar c).text = s.text := by
  unfold Session.gotChar
  split
  · rfl
  · split
    · rfl
    · split <;> rfl
  · split <;> rfl

theorem receive_text (s : Session) : s.receive.text = s.text := by
  unfold Session.receive
  dsimp only
  split
  · exact gotChar_text _ _
  · rfl

/-- The terminal's own steps are all allowed, and leave the text. -/
theorem terminal_alone {reader : UInt64} {names : List Addr} {s t : Session} {n : Nat}
    (h : ((session reader).restrict NoBackspace).StepsFrom s (List.replicate n .program) t) :
    (terminal reader names).StepsFrom s (List.replicate n .program) t ∧ t.text = s.text := by
  induction n generalizing s with
  | zero =>
    cases h
    exact ⟨.nil _, rfl⟩
  | succ n ih =>
    cases h with
    | cons action actions hfirst hrest =>
      obtain ⟨hrun, htext⟩ := ih hrest
      refine ⟨.cons _ _ ⟨trivial, trivial, hfirst.2⟩ hrun, htext.trans ?_⟩
      obtain ⟨-, -, hstep⟩ := hfirst.2
      split at hstep
      · obtain ⟨junk, hstep⟩ := hstep
        split at hstep
        · rw [hstep, gotChar_text]
        · rw [hstep]
      · rw [hstep, receive_text]

/-- The names of the table, 16 bytes each. -/
def tableImage (x : Addr) : UInt8 :=
  ((commandsList.map Command.name).getD ((x - 4096).toNat / 16) []).getD ((x - 4096).toNat % 16) 0

def tableNames : List Addr := (List.range 14).map fun i => 4096 + 16 * UInt64.ofNat i

theorem namesLie_tableImage : NamesLie tableImage tableNames := by
  unfold NamesLie
  rw [List.forall₂_iff_zip]
  refine ⟨rfl, ?_⟩
  have hall : ∀ p ∈ tableNames.zip commandsList, ∀ i < (p.2.name ++ [0]).length,
      tableImage (p.1 + UInt64.ofNat i) = (p.2.name ++ [0]).getD i 0 := by
    decide
  intro name command hzip i hi
  rw [hall _ hzip i hi, List.getD_eq_getElem]

theorem tableNames_apart : CommandArray tableNames 0x10000 256 := by
  refine ⟨rfl, ?_⟩
  intro x hx
  obtain ⟨p, hp, hlt⟩ := hx
  have hall : ∀ p ∈ tableNames.zip commandsList,
      p.1.toNat < 0x8000 ∧ p.2.name.length + 1 < 16 := by
    decide
  obtain ⟨hlow, hname⟩ := hall p hp
  have hlast := ((addr_sub_toNat_lt_iff (by omega)).mp hlt).2
  rw [addr_sub_toNat_lt_iff (by decide)]
  intro hin
  have hbuffer : (0x10000 : UInt64).toNat = 0x10000 := rfl
  omega

/-- A key with a character, and room for it. -/
theorem lines_key {tty : Tty} {l : List UInt8} (h : tty.Lines l) {scanCode c : UInt8}
    (hkey : decode .initial scanCode = some c) (hback : c ≠ 8)
    (hroom : l.length + 1 < STDIN_BUFFER_SIZE.toNat) : ∃ tty : Tty, tty.Lines (l ++ [c]) := by
  have hkeyed := h.attend (show decode .initial scanCode ≠ some 8 by
    rw [hkey]
    exact fun heq => hback (Option.some.inj heq))
  rw [hkey, Tty.takes_eq h, if_neg (by omega), Tty.lineChar, if_neg (by omega)] at hkeyed
  exact ⟨_, hkeyed⟩

theorem lines_ps : ∃ tty : Tty, tty.Lines [112, 115, 10] := by
  have hempty : Tty.Lines .bss [] := Tty.lines_reachable (.init ⟨rfl, rfl⟩)
  obtain ⟨tty₁, h₁⟩ := lines_key hempty (show decode .initial 25 = some 112 by decide)
    (by decide) (by decide)
  obtain ⟨tty₂, h₂⟩ := lines_key h₁ (show decode .initial 31 = some 115 by decide)
    (by decide) (by decide)
  exact lines_key h₂ (show decode .initial 28 = some 10 by decide) (by decide) (by decide)

/-- The line `ps` is the thirteenth name, and runs its program. -/
theorem typed_commands_run_ps : ∃ reader names s call, (terminal reader names).Reachable s ∧
    s.returned = [call] ∧ call.mem.matchCommand names call.buffer = some 12 ∧
    call.mem.commandToRun names call.buffer = some (some .ps) := by
  obtain ⟨k, w, hw, hstdin, hblocking, hturn⟩ := stdin_current
  obtain ⟨tty, htty⟩ := lines_ps
  let s : Session :=
    ⟨{ k with tty := tty, mem := tableImage }, .initial, .TTY, .idle, 0, .idle, [112, 115, 10], []⟩
  have hstart : Session.Start w s := ⟨hstdin.congr rfl, hblocking, hw, htty, rfl, rfl, rfl⟩
  have hready : SessionInv w s [] [] [] [112, 115, 10] := by
    refine ⟨hstart.stdin, hstart.blocking, hw, htty, rfl, ?_, rfl, .idle, fun _ => rfl, .nil⟩
    exact fun line hline => absurd hline List.not_mem_nil
  have hcall : (terminal w tableNames).Reachable { s with program := .line 0x10000 256 0 } :=
    .step (.readLine 0x10000 256) (.init ⟨hstart, namesLie_tableImage⟩)
      ⟨trivial, tableNames_apart, hturn, rfl, by decide, rfl⟩
  have hbegun : SessionInv w { s with program := .line 0x10000 256 0 } [] [] []
      [112, 115, 10] := hready.begin rfl (by decide)
  obtain ⟨n, t, -, hrun, line, l, hdone⟩ :=
    hbegun.gets_line nofun hturn (by decide) (Nat.le_refl _)
  obtain ⟨hruns, htext⟩ := terminal_alone hrun
  have hreach := hcall.run hruns
  obtain ⟨lines, rest, hsplit, hlines, hran⟩ := typed_commands_run hreach
  obtain ⟨call, hreturned⟩ : ∃ call, t.returned = [call] := by
    apply List.length_eq_one_iff.mp
    rw [hdone.returned.length_eq]
    rfl
  rw [hreturned] at hran
  obtain ⟨typed, others, ⟨index, ran, hmatched, hfound, hruns⟩, hnone, rfl⟩ :=
    List.forall₂_cons_left_iff.mp hran
  obtain rfl := List.forall₂_nil_left_iff.mp hnone
  -- the line is the text up to its end
  have hps : typed = [112, 115] := by
    have hword : (joinLines [typed] ++ rest).takeWhile (· ≠ 10) = typed := by
      rw [joinLines, List.flatMap_singleton, List.append_assoc, List.takeWhile_append_of_pos]
      · simp
      · intro c hc
        have hne : c ≠ 10 := fun heq => hlines typed List.mem_cons_self (heq ▸ hc)
        simpa using hne
    rw [htext] at hsplit
    rw [← hword, ← hsplit]
    rfl
  have hword : typedWord typed = [112, 115] := by
    rw [hps]
    rfl
  have hname := (hruns.runs ⟨[112, 115], .ps⟩ (by decide)).mpr hword.symm
  have honly : ∀ k (hk : k < commandsList.length), commandsList[k].name = [112, 115] → k = 12 := by
    decide
  have hindex : index = 12 := by
    rcases hruns.index with ⟨k, hk, rfl, hk'⟩ | ⟨-, hnot⟩
    · rw [honly k hk (hk'.trans hword)]
      rfl
    · exact absurd hword.symm (hnot ⟨[112, 115], .ps⟩ (by decide))
  refine ⟨w, tableNames, t, call, hreach, hreturned, ?_, ?_⟩
  · rw [hmatched, hindex]
  · rw [hfound, hname]

end TP2Kernel
