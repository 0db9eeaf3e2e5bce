/-
What a node states about itself when it quotes a price, and the addresses it is
paid at.

`QuotingMetrics` is signed as part of every quote, so its byte layout is the
source's own: fixed-width little-endian integers in field order, a count before
the per-type records, and a marker byte before each optional field.
-/
import Autonomi.Lib.Bytes

namespace Autonomi

open Lib

/-- `U256`, with the wrapping arithmetic of the integer type behind it. -/
abbrev U256 := BitVec 256

abbrev RewardsAddress := Vector UInt8 20

/-- Quoting metrics used to generate a quote, or to track a peer's status. -/
structure QuotingMetrics where
  dataType : UInt32
  dataSize : UInt64
  closeRecordsStored : UInt64
  /-- `(data_type_index, num_of_records_of_that_type)` -/
  recordsPerType : List (UInt32 × UInt32)
  maxRecords : UInt64
  receivedPaymentCount : UInt64
  liveTime : UInt64
  networkDensity : Option Bytes32
  networkSize : Option UInt64
deriving DecidableEq

namespace QuotingMetrics

def toBytes (m : QuotingMetrics) : Bytes :=
  toLeBytes 4 m.dataType.toNat
    ++ toLeBytes 8 m.dataSize.toNat
    ++ toLeBytes 8 m.closeRecordsStored.toNat
    ++ toLeBytes 4 m.recordsPerType.length
    ++ (m.recordsPerType.map fun r => toLeBytes 4 r.1.toNat ++ toLeBytes 4 r.2.toNat).flatten
    ++ toLeBytes 8 m.maxRecords.toNat
    ++ toLeBytes 8 m.receivedPaymentCount.toNat
    ++ toLeBytes 8 m.liveTime.toNat
    ++ optionBytes Vector.toList m.networkDensity
    ++ optionBytes (fun size => toLeBytes 8 size.toNat) m.networkSize

end QuotingMetrics

end Autonomi
