import ReconEngine.Model.Tables
import Mathlib.Data.Rat.Defs

/-!
# The configuration of a bank

What the runs read of a bank's configuration file, the defaults of what the file leaves out, and
the two derived numbers of business days. The formats a bank delivers its files in are left out.

**What it does not establish.** That a file has been checked: the schema and the validators are part
of the reader, which is a parameter (`Config.Registry`).
-/

set_option autoImplicit false

namespace Recon

structure FeeScheduleConfig where
  fixedMinor : Nat := 0
  percent : Rat := 0
  toleranceMinor : Nat := 1
deriving DecidableEq, Repr

structure BankConfig where
  bankCode : String
  configVersion : String
  timezone : String
  settlementCycle : String
  reconciliationWindowDays : Int
  calendar : String := "in"
  dateOffsetBusinessDays : Option Nat := none
  amountToleranceMinor : Nat := 1
  fxTolerancePercent : Rat := 3 / 2
  feeSchedule : Option FeeScheduleConfig := none
  expectedSettlementTime : Option String := none
deriving DecidableEq, Repr

namespace BankConfig

/-- `strip().upper()` of an ASCII text. -/
def normalised (text : String) : List Char :=
  (((text.toList.dropWhile Char.isWhitespace).reverse.dropWhile Char.isWhitespace).reverse).map
    Char.toUpper

/-- The number that a text of digits denotes. -/
def digitsValue (digits : List Char) : Nat :=
  digits.foldl (fun n c => 10 * n + (c.toNat - '0'.toNat)) 0

/-- N of a "T+N" settlement cycle; a cycle in any other form counts as T+1. -/
def settlementDays (bank : BankConfig) : Nat :=
  match normalised bank.settlementCycle with
  | 'T' :: '+' :: digits =>
    if digits ≠ [] ∧ digits.all Char.isDigit then digitsValue digits else 1
  | _ => 1

/-- Business days a date may differ by under the Date Offset Rule. -/
def dateOffsetDays (bank : BankConfig) : Nat :=
  bank.dateOffsetBusinessDays.getD (max 1 bank.settlementDays)

end BankConfig
end Recon
