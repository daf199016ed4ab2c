/-
  ChannelNorm.Serial
  ──────────────────
  **STORED FORM OF SETTINGS AND TAGS.**

  Tags, devices, formats, shapes and configurations are stored as plain data: a
  choice without contents as its name, a choice with contents as a record of one
  field, a structure as a record of all its fields.  Reading back is lenient in
  two ways only: a structure may also be a list of its fields in order, and
  unknown fields are skipped.  A count takes at most 64 bits; a value whose
  counts do is read back from its stored form:

      read? (write x) = some x
-/
import ChannelNorm.Backend.Tag
import ChannelNorm.Config
import ChannelNorm.Device
import ChannelNorm.DType
import ChannelNorm.Shape

namespace ChannelNorm

/-- Plain data. -/
inductive Datum where
  | null
  | bool (b : Bool)
  | integer (i : Int)
  /-- A number that is not written as an integer. -/
  | decimal (mantissa : Int) (places : Nat)
  | text (s : String)
  | list (items : List Datum)
  | record (fields : List (String × Datum))
  deriving Inhabited

/-- Values with a stored form. -/
class Stored (α : Type) where
  write : α → Datum
  read? : Datum → Option α

namespace Datum

/-- The first field of a name. -/
def field? (fields : List (String × Datum)) (name : String) : Option Datum :=
  fields.lookup name

/-- A truth value. -/
def bool? : Datum → Option Bool
  | .bool b => some b
  | _ => none

/-- A count of at most 64 bits. -/
def count? : Datum → Option Nat
  | .integer i => if 0 ≤ i ∧ i < UInt64.size then some i.toNat else none
  | _ => none

/-- A list of counts. -/
def counts? : Datum → Option (List Nat)
  | .list items => items.mapM count?
  | _ => none

/-- The name of a choice without contents: alone, or as a field that holds
nothing. -/
def choice? : Datum → Option String
  | .text name => some name
  | .record [(name, .null)] => some name
  | _ => none

/-- The fields of a structure, in the order of `names`. -/
def fields? (names : List String) : Datum → Option (List Datum)
  | .record fields => names.mapM (field? fields)
  | .list items => if items.length = names.length then some items else none
  | _ => none

end Datum

instance : Stored BackendTag where
  write
    | .native => .text "Native"
    | .cudnn => .text "Cudnn"
    | .miopen => .text "Miopen"
  read? d :=
    match d.choice? with
    | some "Native" => some .native
    | some "Cudnn" => some .cudnn
    | some "Miopen" => some .miopen
    | _ => none

instance : Stored Device where
  write
    | .cpu => .text "Cpu"
    | .gpu id => .record [("Gpu", .integer id)]
  read?
    | .record [("Gpu", id)] => id.count?.map .gpu
    | d => if d.choice? = some "Cpu" then some .cpu else none

instance : Stored DType where
  write
    | .float32 => .text "Float32"
    | .float64 => .text "Float64"
  read? d :=
    match d.choice? with
    | some "Float32" => some .float32
    | some "Float64" => some .float64
    | _ => none

instance : Stored Shape where
  write s := .record [("dims", .list (s.dims.map fun d => .integer (Int.ofNat d)))]
  read? d :=
    match d.fields? ["dims"] with
    | some [dims] => dims.counts?.map Shape.mk
    | _ => none

instance : Stored NormConfig where
  write c := .record
    [("allow_accelerators", .bool c.allowAccelerators),
      ("parallel_grain", .integer c.parallelGrain),
      ("serial_threshold", .integer c.serialThreshold)]
  read? d := do
    match d.fields? ["allow_accelerators", "parallel_grain", "serial_threshold"] with
    | some [allow, grain, threshold] =>
        return {
          allowAccelerators := ← allow.bool?
          parallelGrain := ← grain.count?
          serialThreshold := ← threshold.count? }
    | _ => none

/-! ## Reading back what was written. -/

theorem read?_write_tag (t : BackendTag) : Stored.read? (Stored.write t) = some t := by
  cases t <;> rfl

theorem read?_write_dtype (d : DType) : Stored.read? (Stored.write d) = some d := by
  cases d <;> rfl

theorem Datum.count?_integer {n : Nat} (h : n < UInt64.size) :
    Datum.count? (.integer n) = some n := by
  have hb : (0 : Int) ≤ (n : Int) ∧ (n : Int) < (UInt64.size : Int) :=
    ⟨Int.natCast_nonneg n, Int.ofNat_lt.2 h⟩
  simp only [Datum.count?, if_pos hb, Int.toNat_natCast]

theorem read?_write_gpu {id : Nat} (h : id < UInt64.size) :
    Stored.read? (Stored.write (Device.gpu id)) = some (Device.gpu id) := by
  show (Datum.count? (.integer id)).map Device.gpu = some (Device.gpu id)
  rw [Datum.count?_integer h]
  rfl

end ChannelNorm
