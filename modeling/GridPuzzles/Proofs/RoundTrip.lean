import GridPuzzles.Proofs.Json.Written
import GridPuzzles.Proofs.Puzzle.Format
import GridPuzzles.Prune.Run
import GridPuzzles.View.Config

/-! Values and their documents. What is written of a grid, of an example, of a task or of a config
is read back as the same value. -/
namespace GridPuzzles
open Json (ListOf Names OrNull PairOf Reader quoted)

def Path.Spelled (p : Path) (v : List UInt8) : Prop :=
  ∃ bytes, (∃ raw, Names raw bytes ∧ v = quoted raw) ∧ Path.mk bytes = p

theorem Path.spelled_written (p : Path) : p.Spelled (Json.writeText p.bytes) :=
  ⟨p.bytes, ⟨_, Json.names_written _, Json.writeText_eq _⟩, rfl⟩

namespace Grid

theorem spelled_written (g : Grid) : g.Spelled g.written := by
  refine Json.listOf_written ?_ g.rows
  intro r
  refine Json.listOf_written ?_ r
  intro c
  rfl

theorem isText_written (g : Grid) : Utf8.isText g.written := by
  refine Json.isText_writeList ?_
  rw [List.forall_mem_map]
  intro r _
  refine Json.isText_writeList ?_
  rw [List.forall_mem_map]
  exact fun c _ => Json.isText_decimal c.toNat

end Grid

namespace Example

theorem spelled_written (e : Example) : e.Spelled e.written :=
  Json.pairOf_written (by decide) e.input.spelled_written e.output.spelled_written

theorem isText_written (e : Example) : Utf8.isText e.written := by
  refine Json.isText_writeObject ?_
  simp only [List.forall_mem_cons]
  exact ⟨⟨by decide +kernel, e.input.isText_written⟩,
    ⟨by decide +kernel, e.output.isText_written⟩, by simp⟩

end Example

namespace Puzzle

theorem spelled_written (p : Puzzle) : p.Spelled p.written :=
  Json.pairOf_written (by decide) (Json.listOf_written Example.spelled_written p.train)
    (Json.listOf_written Example.spelled_written p.test)

theorem isText_written (p : Puzzle) : Utf8.isText p.written := by
  have hlist (es : List Example) : Utf8.isText (Json.writeList (es.map Example.written)) := by
    refine Json.isText_writeList ?_
    rw [List.forall_mem_map]
    exact fun e _ => e.isText_written
  refine Json.isText_writeObject ?_
  simp only [List.forall_mem_cons]
  exact ⟨⟨by decide +kernel, hlist p.train⟩, ⟨by decide +kernel, hlist p.test⟩, by simp⟩

end Puzzle

theorem isText_writeBoolean (b : Bool) : Utf8.isText (Json.writeBoolean b) := by
  cases b <;> decide +kernel

namespace Prune.Config

def Spelled (c : Config) (v : List UInt8) : Prop :=
  ∃ fields : List (List UInt8) × Bool,
    PairOf (ascii "dirs") (ascii "skip_invalid")
      (ListOf fun bytes v => ∃ raw, Names raw bytes ∧ v = quoted raw)
      (fun b v => v = ascii (if b then "true" else "false")) fields.1 fields.2 v ∧
    (⟨fields.1.map Path.mk, fields.2⟩ : Config) = c

theorem reader_reads : reader.Reads Spelled :=
  (Json.pairRecord_reads (Reader.text_reads .path).sequence Reader.boolean_reads
    (by decide) _).map _

theorem spelled_written (c : Config) : c.Spelled c.written := by
  obtain ⟨dirs, skip⟩ := c
  refine ⟨(dirs.map Path.bytes, skip), Json.pairOf_written (by decide) ?_ rfl, ?_⟩
  · have hmap : dirs.map (fun d => Json.writeText d.bytes) =
        (dirs.map Path.bytes).map Json.writeText := by
      rw [List.map_map]
      rfl
    rw [hmap]
    refine Json.listOf_written ?_ (dirs.map Path.bytes)
    exact fun bytes => ⟨_, Json.names_written bytes, Json.writeText_eq bytes⟩
  · have hpaths : (dirs.map Path.bytes).map Path.mk = dirs := by
      rw [List.map_map]
      exact List.map_id dirs
    rw [hpaths]

theorem isText_written (c : Config) (h : ∀ d ∈ c.dirs, Utf8.isText d.bytes) :
    Utf8.isText c.written := by
  refine Json.isText_writeObject ?_
  simp only [List.forall_mem_cons]
  refine ⟨⟨by decide +kernel, Json.isText_writeList ?_⟩,
    ⟨by decide +kernel, isText_writeBoolean c.skipInvalid⟩, by simp⟩
  rw [List.forall_mem_map]
  exact fun d hd => Json.isText_writeText (h d hd)

end Prune.Config

namespace View.Config

theorem path_reads : path.Reads Path.Spelled := (Reader.text_reads .path).map _

theorem output_reads : path.optional.Reads (OrNull Path.Spelled) := by
  refine path_reads.optional ?_
  rintro p v ⟨bytes, ⟨raw, -, rfl⟩, -⟩
  simp [quoted]

theorem output_written (output : Option Path) :
    OrNull Path.Spelled output (Json.writeOptional (fun p => Json.writeText p.bytes) output) := by
  cases output with
  | none => rfl
  | some p => exact p.spelled_written

theorem steps_written (c : Config) :
    fields.Steps fields.blank
      [(ascii "task", Json.writeText c.task.bytes),
        (ascii "output", Json.writeOptional (fun p => Json.writeText p.bytes) c.output),
        (ascii "cell_size", decimal c.cellSize.toNat)]
      ⟨some c.task, some c.output, some c.cellSize⟩ := by
  refine .field rfl rfl rfl path_reads c.task.spelled_written ?_
  refine .field rfl rfl rfl output_reads (output_written c.output) ?_
  exact .field rfl rfl rfl Reader.cellSize_reads rfl (.nil _)

theorem isText_written (c : Config) (htask : Utf8.isText c.task.bytes)
    (houtput : ∀ p ∈ c.output, Utf8.isText p.bytes) : Utf8.isText c.written := by
  have hoptional : Utf8.isText (Json.writeOptional (fun p => Json.writeText p.bytes) c.output) := by
    cases hc : c.output with
    | none => decide +kernel
    | some p => exact Json.isText_writeText (houtput p hc)
  refine Json.isText_writeObject ?_
  simp only [List.forall_mem_cons]
  exact ⟨⟨by decide +kernel, Json.isText_writeText htask⟩, ⟨by decide +kernel, hoptional⟩,
    ⟨by decide +kernel, Json.isText_decimal _⟩, by simp⟩

theorem run_written (c : Config) (htext : Utf8.isText c.written) :
    reader.run c.written = .ok c [] := by
  obtain ⟨es, hes, hobject⟩ := Json.members_written
    [("task", Json.writeText c.task.bytes),
      ("output", Json.writeOptional (fun p => Json.writeText p.bytes) c.output),
      ("cell_size", decimal c.cellSize.toNat)]
  have hend : Utf8.Ending (c.written ++ []) := ⟨[], by rwa [List.append_nil]⟩
  have hrun := Json.Record.object_complete c.steps_written rfl hes hobject Json.blank_nil hend
  rwa [List.nil_append, List.append_nil] at hrun

end View.Config

/-- What is written is read back: every grid, every example and every task, and every config whose
paths are texts of UTF-8. -/
theorem parse_written :
    (∀ g : Grid, Grid.reader.parse g.written = .ok g) ∧
    (∀ e : Example, Example.reader.parse e.written = .ok e) ∧
    (∀ p : Puzzle, Puzzle.reader.parse p.written = .ok p) ∧
    (∀ c : Prune.Config, (∀ d ∈ c.dirs, Utf8.isText d.bytes) →
      Prune.Config.reader.parse c.written = .ok c) ∧
    (∀ c : View.Config, Utf8.isText c.task.bytes → (∀ p ∈ c.output, Utf8.isText p.bytes) →
      View.Config.reader.parse c.written = .ok c) := by
  refine ⟨?_, ?_, ?_, ?_, ?_⟩
  · exact fun g => Grid.reader_reads.parse_spelled g.spelled_written g.isText_written
  · exact fun e => Example.reader_reads.parse_spelled e.spelled_written e.isText_written
  · exact fun p => Puzzle.reader_reads.parse_spelled p.spelled_written p.isText_written
  · intro c hdirs
    exact Prune.Config.reader_reads.parse_spelled c.spelled_written (c.isText_written hdirs)
  · intro c htask houtput
    exact Reader.parse_of_run (c.run_written (c.isText_written htask houtput))

/-- A path with a quote, a backslash, control characters and characters outside ASCII. -/
def oddPath : Path := Path.ofString "\"\\\n\x01\x7fé😀.json"

theorem parse_written_odd :
    let prune : Prune.Config := ⟨[oddPath, ⟨[]⟩], true⟩
    let view : View.Config := ⟨oddPath, some oddPath, 0xffffffff⟩
    prune.written = Utf8.encode
        "\x7b\"dirs\":[\"\\\"\\\\\\n\\u0001\x7fé😀.json\",\"\"],\"skip_invalid\":true\x7d" ∧
      Prune.Config.reader.parse prune.written = .ok prune ∧
      View.Config.reader.parse view.written = .ok view := by
  intro prune view
  obtain ⟨-, -, -, hprune, hview⟩ := parse_written
  refine ⟨by decide +kernel, hprune prune ?_, hview view (by decide +kernel) ?_⟩
  · decide +kernel
  · rintro p ⟨⟩
    decide +kernel

end GridPuzzles
