import Parlance.CommandLine
import Parlance.Proofs.Simulation.Keeping
import Parlance.Proofs.Text.Unbroken

namespace Parlance

namespace Input

-- All the lines that are still to be read.
def pending : Input → List String
  | lines pending => pending
  | stream rest =>
    (Text.linesFrom [] rest).map fun line => String.ofList (Text.dropBreaks line.text)

theorem next_stream {cs : List Char} (h : cs ≠ []) :
    (stream cs).next =
      (some (String.ofList (Text.dropBreaks (Text.takeLine cs).1)),
        stream (Text.takeLine cs).2) := by
  cases cs with
  | nil => exact absurd rfl h
  | cons c cs => rfl

-- Every line that is read is the first of these, and leaves the others.
theorem next_eq (input : Input) :
    input.next.1 = input.pending.head? ∧ input.next.2.pending = input.pending.tail := by
  cases input with
  | lines pending => cases pending <;> exact ⟨rfl, rfl⟩
  | stream rest =>
    cases rest using Text.lineRec with
    | last rest h =>
      by_cases hrest : rest = []
      · subst hrest
        exact ⟨rfl, rfl⟩
      · have hlines : Text.linesFrom [] rest = [⟨rest, false⟩] := Text.linesFrom_last h hrest
        rw [next_stream hrest, Text.takeLine_last h]
        simp only [pending, hlines]
        exact ⟨rfl, rfl⟩
    | step body rest h _ =>
      have hlines : Text.linesFrom [] (body ++ '\n' :: rest) =
          ⟨body, true⟩ :: Text.linesFrom [] rest := Text.linesFrom_append h rest
      rw [next_stream (by simp), Text.takeLine_append h, Text.dropBreaks_concat (.inl rfl)]
      simp only [pending, hlines]
      exact ⟨rfl, rfl⟩

end Input

namespace Console

-- The lines that a console gives when it is read until there are no more.
inductive Reads : Console → List String → Prop
  | done {c : Console} : c.readLine.1 = none → Reads c []
  | line {c : Console} {line : String} {more : List String} :
    c.readLine.1 = some line → Reads c.readLine.2 more → Reads c (line :: more)

theorem Reads.unique {c : Console} {ls ls' : List String} (h : c.Reads ls) (h' : c.Reads ls') :
    ls = ls' := by
  induction h generalizing ls' with
  | done hnone =>
    cases h' with
    | done => rfl
    | line hsome => simp [hnone] at hsome
  | line hsome _ ih =>
    cases h' with
    | done hnone => simp [hnone] at hsome
    | line hsome' hmore' =>
      rw [hsome] at hsome'
      cases hsome'
      rw [ih hmore']

theorem reads_pending (c : Console) : c.Reads c.input.pending := by
  obtain ⟨hnext, hrest⟩ := c.input.next_eq
  induction hp : c.input.pending generalizing c with
  | nil =>
    rw [hp] at hnext
    exact .done hnext
  | cons line more ih =>
    rw [hp] at hnext hrest
    obtain ⟨hnext', hrest'⟩ := c.readLine.2.input.next_eq
    exact .line hnext (ih c.readLine.2 hnext' hrest' hrest)

-- The console with its input split into lines.
def split (c : Console) : Console :=
  { c with input := .lines c.input.pending }

theorem readLine_split (c : Console) :
    c.split.readLine = (c.readLine.1, c.readLine.2.split) := by
  obtain ⟨hnext, hrest⟩ := c.input.next_eq
  have hlines : ∀ ls : List String, (Input.lines ls).next = (ls.head?, .lines ls.tail) := by
    intro ls
    cases ls <;> rfl
  simp only [readLine, split, hlines, hnext, hrest]

-- A line without the carriage returns at its end.
def trimmed (line : String) : String :=
  String.ofList (Text.dropBreaks line.toList)

-- A text that is read as it comes gives the lines of a captured one, but all carriage returns at
-- their ends are gone.
theorem pending_stream (s : String) :
    (stream s).input.pending = (Text.lines s).map trimmed := by
  rw [Text.lines, List.map_map]
  refine List.map_congr_left fun line _ => ?_
  rw [Function.comp_apply, trimmed, String.toList_ofList, Text.dropBreaks_dropReturn]

theorem trimmed_eq_self_iff {line : String} (h : Unbroken line) :
    trimmed line = line ↔ line.toList.getLast? ≠ some '\r' := by
  rw [trimmed, ← String.toList_inj, String.toList_ofList, Text.dropBreaks_eq_self_iff]
  constructor
  · intro hall heq
    exact (hall '\r' heq).2 rfl
  · rintro hne c hc
    refine ⟨?_, ?_⟩
    · rintro rfl
      exact h (List.mem_of_getLast? hc)
    · rintro rfl
      exact hne hc

-- Nothing is lost exactly if the text has no carriage returns of its own at the ends of lines.
theorem pending_stream_eq_iff (s : String) :
    (stream s).input.pending = Text.lines s ↔ ¬ Text.HasStrayReturn s.toList := by
  have hmap : (Text.lines s).map trimmed = Text.lines s ↔
      ∀ line ∈ Text.lines s, trimmed line = line := by
    simpa using List.map_inj_left (l := Text.lines s) (f := trimmed) (g := id)
  rw [pending_stream, hmap, ← Text.exists_return_iff]
  constructor
  · rintro hall ⟨line, hmem, hlast⟩
    have hline : String.ofList line.dropReturn ∈ Text.lines s := List.mem_map_of_mem hmem
    have hself := (trimmed_eq_self_iff (Text.lines_unbroken s _ hline)).mp (hall _ hline)
    rw [String.toList_ofList] at hself
    exact hself hlast
  · intro hnone line hline
    refine (trimmed_eq_self_iff (Text.lines_unbroken s line hline)).mpr fun hlast => hnone ?_
    obtain ⟨source, hmem, rfl⟩ := List.mem_map.mp hline
    rw [String.toList_ofList] at hlast
    exact ⟨source, hmem, hlast⟩

theorem split_stream {s : String} (h : ¬ Text.HasStrayReturn s.toList) :
    (stream s).split = captured s := by
  rw [split, (pending_stream_eq_iff s).mpr h]
  rfl

end Console

def World.split (w : World) : World :=
  { w with console := w.console.split }

def Outcome.split {α : Type} : Outcome α → Outcome α
  | .ok a w => .ok a w.split
  | .error s w => .error s w.split

-- Programs see the same through a console that is read as it comes as through its lines.
def splitting : Simulation :=
  keeping Console.split False (fun _ => True) fun _ => False

namespace splitting

open Simulation

theorem kept : Kept Console.split False (fun _ => True) fun _ => False where
  writes _ _ := rfl
  reads := Console.readLine_split
  frames _ _ := trivial
  write _ _ := trivial
  read _ := trivial
  asks _ _ := trivial
  functions _ _ := trivial
  heap _ _ _ _ _ _ := trivial
  listens _ _ := trivial
  closes _ _ := trivial
  client _ _ := trivial
  server _ _ := trivial
  spends h := h.elim
  released h _ := h

theorem evaluators_tied (n : Nat) : splitting.Tied (evaluators n) (evaluators n) :=
  keeping.evaluators_tied kept (fun _ _ _ => trivial)
    (keeping.request kept (fun _ _ _ => trivial) fun h _ _ => h) (.inl rfl)

-- No fuel is added, so that nothing is excused.
theorem split_eq {α : Type} {x y : Exec α} (h : splitting.Tracks x y) (w : World) :
    y w.split = Outcome.split (x w) := by
  cases hx : x w with
  | ok a t => exact (h.ok trivial hx).2
  | error s t => exact (h.error trivial hx).2.resolve_left And.right

theorem program (fuel : Nat) (source : String) :
    splitting.Tracks (Exec.require (compile source) >>= runStatements fuel)
      (Exec.require (compile source) >>= runStatements fuel) := by
  have hlawful := keeping.lawful kept
  exact (Tracks.of_require hlawful _).bind hlawful fun p =>
    run hlawful (evaluators_tied fuel) fun _ _ => trivial

end splitting

theorem execute_split (fuel : Nat) (source : String) (w : World) :
    execute fuel source w.split = Outcome.split (execute fuel source w) := by
  have hbody := splitting.split_eq (splitting.program fuel source) w
  unfold execute guarded
  rw [hbody]
  cases (Exec.require (compile source) >>= runStatements fuel) w with
  | ok a t => rfl
  | error s t => cases s <;> rfl

namespace CommandLine

theorem Arguments.run_capture (host : Host) (s : Surroundings) (a : Arguments)
    (h : ¬ Text.HasStrayReturn s.input.toList) :
    Arguments.run host s { a with capture := true } =
      Arguments.run host s { a with capture := false } := by
  have hprogram : ∀ capture, program s { a with capture } = program s a := fun _ => rfl
  have hworld : ∀ options,
      World.fresh (.captured s.input) options = (World.fresh (.stream s.input) options).split := by
    intro options
    rw [← Console.split_stream h]
    rfl
  unfold Arguments.run
  rw [hprogram true, hprogram false]
  cases program s a with
  | error message => rfl
  | ok named =>
    simp only [Arguments.console, ite_true, Bool.false_eq_true, ite_false]
    rw [hworld, execute_split]
    cases execute ampleFuel named.2 (World.fresh (.stream s.input) ⟨!a.sequential, host⟩) with
    | ok _ w => rfl
    | error stop w => cases stop <;> rfl

end CommandLine

-- A text gives the same lines whether it is captured or read as it comes, except for carriage
-- returns at their ends. Where those are part of line breaks or absent, no command can tell.
theorem consoles_agree_without_stray_returns (s : String) :
    (∃ ls, (Console.captured s).Reads ls ∧ (Console.stream s).Reads (ls.map Console.trimmed)) ∧
    ((∀ ls, (Console.captured s).Reads ls ↔ (Console.stream s).Reads ls) ↔
      ¬ Text.HasStrayReturn s.toList) ∧
    (¬ Text.HasStrayReturn s.toList →
      ∀ (host : Host) (file : String → Except String String) (a : CommandLine.Arguments),
        CommandLine.Arguments.run host ⟨file, s⟩ { a with capture := true } =
          CommandLine.Arguments.run host ⟨file, s⟩ { a with capture := false }) := by
  have hcaptured : (Console.captured s).Reads (Text.lines s) := Console.reads_pending _
  have hstream : (Console.stream s).Reads (Console.stream s).input.pending :=
    Console.reads_pending _
  refine ⟨⟨Text.lines s, hcaptured, ?_⟩, ?_, fun h host file a => ?_⟩
  · rw [← Console.pending_stream]
    exact hstream
  · rw [← Console.pending_stream_eq_iff]
    constructor
    · intro hsame
      exact hstream.unique ((hsame _).mp hcaptured)
    · intro heq ls
      rw [heq] at hstream
      constructor
      · intro hls
        rw [hls.unique hcaptured]
        exact hstream
      · intro hls
        rw [hls.unique hstream]
        exact hcaptured
  · exact a.run_capture host ⟨file, s⟩ h

-- A line that ends in a carriage return of its own.
theorem carriage_return_is_lost :
    (Console.captured "a\r\r\n").Reads ["a\r"] ∧ (Console.stream "a\r\r\n").Reads ["a"] ∧
    (CommandLine.outcome .loopback ⟨fun _ => .error "", "a\r\r\n"⟩
      ["--capture", "-e", "print(len(input()))"]).output = "2\n" ∧
    (CommandLine.outcome .loopback ⟨fun _ => .error "", "a\r\r\n"⟩
      ["-e", "print(len(input()))"]).output = "1\n" := by
  refine ⟨.line rfl (.done rfl), .line rfl (.done rfl), ?_, ?_⟩
  · decide +kernel
  · decide +kernel

end Parlance
