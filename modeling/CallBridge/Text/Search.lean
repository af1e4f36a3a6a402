/-!
# Searching a text

Whether one text stands inside another.
-/

namespace CallBridge.Text

/-- Whether a word stands somewhere in a text. -/
def occursIn (word : List Char) : List Char → Bool
  | [] => word.isEmpty
  | c :: rest => word.isPrefixOf (c :: rest) || occursIn word rest

/-- Whether a string has another one inside. -/
def mentions (text word : String) : Bool := occursIn word.toList text.toList

end CallBridge.Text
