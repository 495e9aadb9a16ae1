import UtilityCss.Text.Cut
/-
  The help pages of the program: how a command is used, what it does, and what
  its options are.

  A page is of lines of up to 78 characters; where the explanation of an option
  is too long it goes on below itself.
-/

namespace UtilityCss.Command

/-- A help page: that of the program, or of one of its commands. -/
inductive Page where
  | program
  | convert
  | serve
  | vars
  | list
  | add
  | remove
  | importFrom
  deriving DecidableEq, Repr

namespace Page

/-- How the command of a page is used. -/
def usage : Page → String
  | program => "figwind [OPTIONS] COMMAND [ARGS]..."
  | convert => "figwind convert [OPTIONS]"
  | serve => "figwind serve [OPTIONS]"
  | vars => "figwind vars [OPTIONS] COMMAND [ARGS]..."
  | list => "figwind vars list [OPTIONS]"
  | add => "figwind vars add [OPTIONS] NAME VALUE"
  | remove => "figwind vars remove [OPTIONS] NAME"
  | importFrom => "figwind vars import [OPTIONS] JSON_FILE"

/-- What the command of a page does, in lines. -/
def about : Page → List String
  | program => ["figwind: convert Figma CSS into Tailwind utility classes."]
  | convert =>
    ["Convert CSS declarations into a Tailwind class string.", "",
      "CSS is taken from --css, --file, or standard input, in that order."]
  | serve => ["Start the figwind web API."]
  | vars => ["Manage the CSS variable dictionary."]
  | list => ["Print the dictionary as JSON."]
  | add => ["Map CSS variable NAME (e.g. --Heading-Font) to a Tailwind VALUE."]
  | remove => ["Remove CSS variable NAME from the dictionary."]
  | importFrom => ["Import entries from a JSON object file."]

/-- The options that a command on variables has. -/
def variableOptions : List String :=
  ["--db TEXT   Database path  [default: figwind.db]",
    "--key TEXT  Storage key of the variable dictionary  [default: figma-",
    "            tailwind-var-dict]",
    "--help      Show this message and exit."]

/-- The options of the command of a page, in lines. -/
def options : Page → List String
  | program =>
    ["--version      Show the version and exit.",
      "-v, --verbose  Enable debug logging",
      "--help         Show this message and exit."]
  | convert =>
    ["--css TEXT       CSS declarations to convert",
      "--file FILE      Read CSS declarations from a file",
      "--prefix TEXT    Variant prefixes, e.g. \"lg hover\"",
      "--existing TEXT  Existing classes to merge into",
      "--db TEXT        Database path  [default: figwind.db]",
      "--key TEXT       Storage key of the variable dictionary  [default: figma-",
      "                 tailwind-var-dict]",
      "--help           Show this message and exit."]
  | serve =>
    ["--host TEXT           Host to bind to",
      "--port INTEGER        Port to bind to",
      "--db TEXT             Database path  [default: figwind.db]",
      "--key TEXT            Storage key of the variable dictionary  [default:",
      "                      figma-tailwind-var-dict]",
      "--debug / --no-debug  Enable debug mode",
      "--help                Show this message and exit."]
  | vars => ["--help  Show this message and exit."]
  | _ => variableOptions

/-- The commands under the command of a page, in lines. -/
def commands : Page → List String
  | program =>
    ["convert  Convert CSS declarations into a Tailwind class string.",
      "serve    Start the figwind web API.",
      "vars     Manage the CSS variable dictionary."]
  | vars =>
    ["add     Map CSS variable NAME (e.g.",
      "import  Import entries from a JSON object file.",
      "list    Print the dictionary as JSON.",
      "remove  Remove CSS variable NAME from the dictionary."]
  | _ => []

/-- A line of a part of a page. An empty one is not indented. -/
def indented (line : String) : Text := if line = "" then [] else "  " ++ Text.of line

/-- A part of a page with its heading, if it has any lines. -/
def part (heading : String) (lines : List String) : List Text :=
  if lines = [] then [] else [[], Text.of heading] ++ lines.map indented

def text (page : Page) : Text :=
  Text.joinWith ['\n'] ([Text.of "Usage: " ++ Text.of page.usage, []] ++ page.about.map indented ++
    part "Options:" page.options ++ part "Commands:" page.commands)

end Page

end UtilityCss.Command
