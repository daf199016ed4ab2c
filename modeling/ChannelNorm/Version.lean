/-
  ChannelNorm.Version
  ───────────────────
  **THE VERSION OF THE LIBRARY.**
-/
namespace ChannelNorm

/-- The version of the library. -/
def version : String := "0.1.0"

end ChannelNorm
