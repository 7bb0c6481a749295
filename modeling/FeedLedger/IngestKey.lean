import FeedLedger.Sha1
import FeedLedger.Value.Literal

namespace FeedLedger.IngestKey

open Text

def origin (batch table : String) (ordinal : Value) : List Char :=
  batch.toList ++ ':' :: table.toList ++ ':' :: ordinal.written

/-- The key of a batch's row with the given ordinal among its rows of the table. -/
def key (batch table : String) (ordinal : Value) : String :=
  Sha1.hex ((origin batch table ordinal).flatMap String.utf8EncodeChar)

/-- What names a batch: its stream and the offset it ends at, written with all its digits. -/
def batchName (stream : Value) (offset : Int) : String :=
  String.ofList (stream.written ++ ':' :: digitsOfInt offset)

end FeedLedger.IngestKey
