import Logfile.Cdata
import Logfile.LogEvent

/-!
# The lines of a log file

`formatCData` with its loop over positions, and the line that `do_write` of
`output_stream_file` puts together. The message is cut into CDATA sections
(`formatCData_eq`). The other fields are pasted as they are.
-/

namespace Logfile

open Text Xml

/-- The loop of `formatCData`. Each round moves `pos`, which stays inside the string. -/
def formatCDataLoop (data : Bytes) : ℕ → ℕ → Bytes → Bytes
  | 0, _, ss => ss
  | fuel + 1, pos, ss =>
    match find data (ascii "]]>") pos with
    | some i =>
      formatCDataLoop data fuel (i + 2)
        (ss ++ (data.drop pos).take (i - pos + 2) ++ ascii "]]><![CDATA[")
    | none => ss ++ data.drop pos ++ ascii "]]>"

def formatCData (data : Bytes) : Bytes :=
  formatCDataLoop data (data.length + 1) 0 (ascii "<![CDATA[")

/-- `line` of `do_write` -/
def logLine (le : LogEvent) : Bytes :=
  ascii "<message level=\"" ++ le.level.name ++ ascii "\"><time>" ++ le.timeString ++
    ascii "</time><subsystem>" ++ le.subsystemString ++ ascii "</subsystem><function>" ++
    le.function ++ ascii "</function><text>" ++ formatCData le.message ++
    ascii "</text></message>\n"

/-- What `open` writes. -/
def logHeader : Bytes := ascii "<logfile>\n"

/-- What `close` writes. -/
def logFooter : Bytes := ascii "</logfile>\n"

example : formatCData (ascii "a]]>b") = ascii "<![CDATA[a]]]]><![CDATA[>b]]>" := by decide

/-- The loop writes what is left in sections. -/
theorem formatCDataLoop_eq (passed : Bytes) : ∀ {fuel : ℕ} (rest ss : Bytes),
    rest.length < fuel → formatCDataLoop (passed ++ rest) fuel passed.length ss =
      ss ++ sections 0 rest ++ ascii "]]>" := by
  intro fuel
  induction fuel generalizing passed with
  | zero =>
    intro rest ss h
    omega
  | succ fuel ih =>
    intro rest ss hfuel
    rw [formatCDataLoop, find_append]
    rcases sections_cases rest with ⟨hno, heq⟩ | ⟨x, b, rfl, hno, heq⟩
    · rw [(search_eq_none_iff (by decide)).2 hno, heq]
      simp
    · have hx : ¬ascii "]]>" <:+: x := fun h =>
        hno (h.trans (List.prefix_append x (ascii "]]")).isInfix)
      have hsearch : search (ascii "]]>") (x ++ (ascii "]]>" ++ b)) = some x.length := by
        have := search_unbordered (by decide) hx b
        rwa [List.append_assoc] at this
      have hcut : x ++ (ascii "]]>" ++ b) = (x ++ ascii "]]") ++ 62 :: b := by simp [ascii]
      have htake : ((x ++ ascii "]]") ++ 62 :: b).take (passed.length + x.length -
          passed.length + 2) = x ++ ascii "]]" := by
        rw [List.take_append_of_le_length (by simp [ascii])]
        exact List.take_of_length_le (by simp [ascii])
      have hpos : passed.length + x.length + 2 = (passed ++ (x ++ ascii "]]")).length := by
        simp [ascii]
        omega
      have hnext := ih (passed ++ (x ++ ascii "]]")) (62 :: b)
        (ss ++ (x ++ ascii "]]") ++ ascii "]]><![CDATA[") (by
          simp [ascii] at hfuel ⊢
          omega)
      rw [hsearch, heq, hcut]
      simp only [Option.map_some, List.drop_left, htake, hpos]
      rw [← List.append_assoc, hnext]
      simp [ascii]

theorem formatCData_eq (data : Bytes) :
    formatCData data = ascii "<![CDATA[" ++ sections 0 data ++ ascii "]]>" :=
  formatCDataLoop_eq [] data _ (Nat.lt_succ_self _)

/-- `formatCData` writes sections and nothing else. Whoever reads each up to the first "]]>" gets
the data back. -/
theorem formatCData_readSections (data : Bytes) :
    ∃ cs, cs ≠ [] ∧ formatCData data = cs.flatMap cdataSection ∧
      readSections (formatCData data) = some cs ∧ cs.flatten = data ∧
      ∀ x ∈ cs, ¬ascii "]]>" <:+: x := by
  obtain ⟨cs, hne, htext, hread, hflat, hfree⟩ := exists_readSections data
  rw [formatCData_eq, htext]
  exact ⟨cs, hne, rfl, hread, hflat, hfree⟩

end Logfile
