import Phrasebook.Text.CodePoint

/-!
# Phrasebook — usage and help

The texts that explain the command line, laid out for eighty columns.
-/

namespace Phrasebook.Command

/-- The name of the program. -/
def program : String := "extract-js-strings"

/-- The synopsis of the command line. -/
def usageLines : List String :=
  ["usage: extract-js-strings [-h] [-m MARKER] [-o OUTPUT]",
    "                          [--loglevel \x7bDEBUG,INFO,WARNING,ERROR\x7d]",
    "                          [--fail-fast]",
    "                          path"]

/-- What the program does, and what its options mean. -/
def descriptionLines : List String :=
  ["",
    "Extract translatable strings from JavaScript sources into a POT catalog.",
    "",
    "Examples:",
    "",
    "    extract-js-strings src/ > messages.pot",
    "    extract-js-strings --marker=__ --marker=i18n.ngettext -o messages.pot src/",
    "",
    "Every call to a marker function (default: __) with a string literal as its",
    "first argument becomes a message. A second string literal argument makes it",
    "a plural message.",
    "",
    "positional arguments:",
    "  path                  Source file or directory to scan",
    "",
    "options:",
    "  -h, --help            show this help message and exit",
    "  -m MARKER, --marker MARKER",
    "                        function name identifying a translatable string",
    "                        (default: __); may be given more than once",
    "  -o OUTPUT, --output OUTPUT",
    "                        Write the catalog to this file instead of standard",
    "                        output",
    "  --loglevel \x7bDEBUG,INFO,WARNING,ERROR\x7d",
    "                        set verbosity level",
    "  --fail-fast           Stop immediately after an unreadable path is reported"]

/-- Lines, each with its end. -/
def textOfLines (lines : List String) : Text :=
  lines.flatMap fun line => Text.ofString line ++ ("\n" : Text)

/-- The synopsis. -/
def usage : Text := textOfLines usageLines

/-- The synopsis and the explanation. -/
def help : Text := textOfLines (usageLines ++ descriptionLines)

end Phrasebook.Command
