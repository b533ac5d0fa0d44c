/-!
# Words of the shell

A value becomes one word of a shell command line by single quotes. Inside them every character
stands for itself except the quote, which is written as a closing quote, an escaped quote, and an
opening quote.
-/

namespace Upkeep.ShellWord

/-- One character inside single quotes. -/
def quoteChar (c : Char) : List Char :=
  if c == '\'' then ['\'', '\\', '\'', '\''] else [c]

/-- A value as one word. -/
def quote (value : String) : String :=
  String.ofList ('\'' :: value.toList.flatMap quoteChar ++ ['\''])

end Upkeep.ShellWord
