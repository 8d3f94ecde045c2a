import Codegg.Library.ByteText

/-!
# Limits of the session projection

The caps of the projection's collections, the byte limits of its texts, and the two
ways a text is cut to its limit.
-/
namespace Codegg.Projection

open Codegg.Library

def maxProjectionSessions : ℕ := 16
def maxProjectionMessages : ℕ := 256
def maxProjectionRecentTools : ℕ := 32
def maxProjectionPendingPermissions : ℕ := 16
def maxProjectionPendingQuestions : ℕ := 16
def maxProjectionRuns : ℕ := 32
def maxProjectionJobs : ℕ := 32
def maxProjectionToolPrograms : ℕ := 32
def maxProjectionShellRuns : ℕ := 32
def maxProjectionToolContracts : ℕ := 64
def maxProjectionPluginCatalogue : ℕ := 64
def maxProjectionWorkPlanItems : ℕ := 64
def maxProjectionSubagents : ℕ := 16
def maxProjectionSessionSubagents : ℕ := 32
def maxProjectionAgentRuns : ℕ := 64
def maxProjectionWorktrees : ℕ := 32
def maxProjectionTranscriptRows : ℕ := 64
def maxProjectionTranscriptWatermarks : ℕ := 64
def maxProjectionRunGroups : ℕ := 32
def maxProjectionConvergences : ℕ := 32
def maxProjectionDiagnostics : ℕ := 32

def maxProjectionStringBytes : ℕ := 4096
def maxProjectionRunSummaryBytes : ℕ := 2048
def maxProjectionDisplayNameBytes : ℕ := 32
def maxProjectionDescriptorBytes : ℕ := 256
def maxProjectionTranscriptBytes : ℕ := 8 * 1024

/-- Appended to a truncated text. -/
def truncationMarker : String := "…[truncated]"

/-- `s` cut to at most `maxBytes` bytes, the marker included when something was cut. -/
def truncateStr (s : String) (maxBytes : ℕ) : String :=
  if s.utf8ByteSize ≤ maxBytes then s
  else if maxBytes ≤ truncationMarker.utf8ByteSize + 1 then bytePrefix truncationMarker maxBytes
  else bytePrefix s (maxBytes - truncationMarker.utf8ByteSize) ++ truncationMarker

/-- `s` cut to at most `maxBytes` bytes, without a marker. -/
def clipStr (s : String) (maxBytes : ℕ) : String :=
  if s.utf8ByteSize ≤ maxBytes then s else bytePrefix s maxBytes

theorem truncateStr_le (s : String) (n : ℕ) : (truncateStr s n).utf8ByteSize ≤ n := by
  rw [truncateStr]
  split
  · assumption
  · split
    · exact utf8ByteSize_bytePrefix_le _ _
    · have hcut := utf8ByteSize_bytePrefix_le s (n - truncationMarker.utf8ByteSize)
      rw [String.utf8ByteSize_append]
      omega

theorem truncateStr_of_le {s : String} {n : ℕ} (h : s.utf8ByteSize ≤ n) : truncateStr s n = s :=
  if_pos h

theorem clipStr_le (s : String) (n : ℕ) : (clipStr s n).utf8ByteSize ≤ n := by
  rw [clipStr]
  split
  · assumption
  · exact utf8ByteSize_bytePrefix_le _ _

/-- A text within its limit. -/
def Fits (n : ℕ) (s : String) : Prop := s.utf8ByteSize ≤ n

/-- An optional text within its limit. -/
def FitsOpt (n : ℕ) (s : Option String) : Prop := ∀ t ∈ s, Fits n t

instance (n : ℕ) (s : String) : Decidable (Fits n s) := inferInstanceAs (Decidable (_ ≤ _))

instance (n : ℕ) (s : Option String) : Decidable (FitsOpt n s) :=
  inferInstanceAs (Decidable (∀ t ∈ s, Fits n t))

@[simp] theorem fits_truncateStr (s : String) (n : ℕ) : Fits n (truncateStr s n) :=
  truncateStr_le s n

@[simp] theorem fits_clipStr (s : String) (n : ℕ) : Fits n (clipStr s n) := clipStr_le s n

@[simp] theorem fitsOpt_none (n : ℕ) : FitsOpt n none := by simp [FitsOpt]

@[simp] theorem fitsOpt_some (n : ℕ) (s : String) : FitsOpt n (some s) ↔ Fits n s := by
  simp [FitsOpt]

@[simp] theorem fitsOpt_map_truncateStr (s : Option String) (n : ℕ) :
    FitsOpt n (s.map (truncateStr · n)) := by
  cases s <;> simp

end Codegg.Projection
