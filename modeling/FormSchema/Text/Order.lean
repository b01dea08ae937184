/-!
# The order of strings

Strings are ordered by their characters, a string before its continuations.  As UTF-8
keeps the order of code points, this is also the order of their bytes.
-/

namespace FormSchema.Text

/-- Does the first string come before the second one, or equal it? -/
def le (left right : String) : Bool :=
  !decide (right < left)

/-- The strings in increasing order. -/
def sorted (values : List String) : List String :=
  values.mergeSort le

end FormSchema.Text
