import HookLint.Command.Console

namespace HookLint.Command

/-- Drops tags, and the backslashes that keep others from being tags. `slash` tells whether a
backslash has just been read. -/
def dropMarkup (inTag slash : Bool) : List Char → List Char
  | [] => if slash then ['\\'] else []
  | c :: rest =>
    let before := if slash then ['\\'] else []
    if inTag then dropMarkup (c ≠ ']') false rest
    else if slash && c = '[' then c :: dropMarkup false false rest
    else if c = '\\' then before ++ dropMarkup false true rest
    else if c = '[' && startsTag rest then before ++ dropMarkup true false rest
    else before ++ c :: dropMarkup false false rest

def plainText (markup : String) : String := String.ofList (dropMarkup false false markup.toList)

def Item.lines : Item → List String
  | .line markup => [plainText markup]
  | .rule title => ["--- " ++ plainText title ++ " ---"]
  | .table header rows => (header :: rows).map fun row => " | ".intercalate (row.map plainText)

end HookLint.Command
