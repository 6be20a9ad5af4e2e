import KeyHarvest.Command.Arguments

/-!
# Help texts

What the program says about itself and about each of its commands.
-/
namespace KeyHarvest

def programHelp : List String := [
  "A fast CLI tool for extracting i18n keys from web component markup",
  "",
  "Usage: wclex [COMMAND]",
  "",
  "Commands:",
  "  extract  Extract translation keys from data-i18n style attributes",
  "  init     Initialize a new .wclexrc.json configuration file",
  "  help     Print this message or the help of the given subcommand(s)",
  "",
  "Options:",
  "  -h, --help     Print help",
  "  -V, --version  Print version"]

def extractHelp : List String := [
  "Extract translation keys from data-i18n style attributes",
  "",
  "Usage: wclex extract [OPTIONS] [PATHS]...",
  "",
  "Arguments:",
  "  [PATHS]...",
  "          Files or directories to scan (default: configured includes under the source root)",
  "",
  "Options:",
  "      --attr <ATTR>",
  "          Attribute carrying the translation keys (overrides config file)",
  "",
  "      --option-attr <OPTION_ATTR>",
  "          Attribute carrying the JSON options (overrides config file)",
  "",
  "      --format <FORMAT>",
  "          Output format",
  "",
  "          Possible values:",
  "          - text: Human-readable list of keys per file",
  "          - json: JSON array of `\x7b file, keys \x7d` objects",
  "          ",
  "          [default: text]",
  "",
  "      --source-root <SOURCE_ROOT>",
  "          Source code root directory (overrides config file)",
  "",
  "  -v, --verbose",
  "          Enable verbose output",
  "",
  "  -h, --help",
  "          Print help (see a summary with '-h')"]

def extractHelpShort : List String := [
  "Extract translation keys from data-i18n style attributes",
  "",
  "Usage: wclex extract [OPTIONS] [PATHS]...",
  "",
  "Arguments:",
  "  [PATHS]...  Files or directories to scan (default: configured includes under the source root)",
  "",
  "Options:",
  "      --attr <ATTR>                Attribute carrying the translation keys (overrides config file)",
  "      --option-attr <OPTION_ATTR>  Attribute carrying the JSON options (overrides config file)",
  "      --format <FORMAT>            Output format [default: text] [possible values: text, json]",
  "      --source-root <SOURCE_ROOT>  Source code root directory (overrides config file)",
  "  -v, --verbose                    Enable verbose output",
  "  -h, --help                       Print help (see more with '--help')"]

def initHelp : List String := [
  "Initialize a new .wclexrc.json configuration file",
  "",
  "Usage: wclex init",
  "",
  "Options:",
  "  -h, --help  Print help"]

def helpHelp : List String := [
  "Print this message or the help of the given subcommand(s)",
  "",
  "Usage: wclex help [COMMAND]...",
  "",
  "Arguments:",
  "  [COMMAND]...  Print help for the subcommand(s)"]

def Topic.lines : Topic → List String
  | .program => programHelp
  | .extract true => extractHelp
  | .extract false => extractHelpShort
  | .init => initHelp
  | .help => helpHelp

def Topic.text (topic : Topic) : Text := topic.lines.flatMap fun line => line.toList ++ ['\n']

def versionText : Text := "wclex 0.1.0\n".toList

end KeyHarvest
