/-
Module: ShellGloss.Catalog.Bundled
Purpose: The catalog that comes with the program.
Imports: ShellGloss.Catalog.Basic
Main exports:
  Catalog.bundled
-/
import ShellGloss.Catalog.Basic

namespace ShellGloss.Catalog

namespace Bundled

/-- The command `sudo`. -/
def superuser : CommandEntry where
  name := "sudo"
  summary := "execute a command as another user"
  options := [
    { summary := "run the command as a user other than the default target user"
      short := ["-u"]
      long := ["--user"]
      takesValue := true },
    { summary := "preserve the existing environment variables"
      short := ["-E"]
      long := ["--preserve-env"] },
    { summary :=
        "run the shell specified by the target user's password database entry as a login shell"
      short := ["-i"]
      long := ["--login"] },
    { summary := "invalidate the user's cached credentials"
      short := ["-k"]
      long := ["--reset-timestamp"] }]

/-- The command `ls`. -/
def ls : CommandEntry where
  name := "ls"
  summary := "list directory contents"
  options := [
    { summary := "do not ignore entries starting with ."
      short := ["-a"]
      long := ["--all"] },
    { summary := "do not list implied . and .."
      short := ["-A"]
      long := ["--almost-all"] },
    { summary := "use a long listing format"
      short := ["-l"] },
    { summary := "with -l, print sizes like 1K 234M 2G etc."
      short := ["-h"]
      long := ["--human-readable"] },
    { summary := "list subdirectories recursively"
      short := ["-R"]
      long := ["--recursive"] },
    { summary := "sort by modification time, newest first"
      short := ["-t"] },
    { summary := "reverse order while sorting"
      short := ["-r"]
      long := ["--reverse"] },
    { summary := "sort by file size, largest first"
      short := ["-S"] },
    { summary := "do not list implied entries matching shell PATTERN"
      short := ["-I"]
      long := ["--ignore"]
      takesValue := true }]

/-- The command `cat`. -/
def cat : CommandEntry where
  name := "cat"
  summary := "concatenate files and print on the standard output"
  options := [
    { summary := "number all output lines"
      short := ["-n"]
      long := ["--number"] },
    { summary := "equivalent to -vET"
      short := ["-A"]
      long := ["--show-all"] }]

/-- The command `grep`. -/
def grep : CommandEntry where
  name := "grep"
  summary := "print lines that match patterns"
  options := [
    { summary := "ignore case distinctions in patterns and data"
      short := ["-i"]
      long := ["--ignore-case"] },
    { summary := "invert the sense of matching, to select non-matching lines"
      short := ["-v"]
      long := ["--invert-match"] },
    { summary := "read all files under each directory, recursively"
      short := ["-r"]
      long := ["--recursive"] },
    { summary := "prefix each line of output with the line number within its input file"
      short := ["-n"]
      long := ["--line-number"] },
    { summary := "print a count of matching lines for each input file"
      short := ["-c"]
      long := ["--count"] },
    { summary := "use PATTERNS as the patterns"
      short := ["-e"]
      long := ["--regexp"]
      takesValue := true },
    { summary := "print NUM lines of trailing context after matching lines"
      short := ["-A"]
      long := ["--after-context"]
      takesValue := true },
    { summary := "print NUM lines of leading context before matching lines"
      short := ["-B"]
      long := ["--before-context"]
      takesValue := true }]

/-- The command `head`. -/
def head : CommandEntry where
  name := "head"
  summary := "output the first part of files"
  options := [
    { summary := "print the first NUM lines instead of the first 10"
      short := ["-n"]
      long := ["--lines"]
      takesValue := true },
    { summary := "print the first NUM bytes of each file"
      short := ["-c"]
      long := ["--bytes"]
      takesValue := true }]

/-- The command `tail`. -/
def tail : CommandEntry where
  name := "tail"
  summary := "output the last part of files"
  options := [
    { summary := "output the last NUM lines, instead of the last 10"
      short := ["-n"]
      long := ["--lines"]
      takesValue := true },
    { summary := "output appended data as the file grows"
      short := ["-f"]
      long := ["--follow"] }]

/-- The command `rm`. -/
def rm : CommandEntry where
  name := "rm"
  summary := "remove files or directories"
  options := [
    { summary := "remove directories and their contents recursively"
      short := ["-r", "-R"]
      long := ["--recursive"] },
    { summary := "ignore nonexistent files and arguments, never prompt"
      short := ["-f"]
      long := ["--force"] },
    { summary := "prompt before every removal"
      short := ["-i"] }]

/-- The command `mkdir`. -/
def mkdir : CommandEntry where
  name := "mkdir"
  summary := "make directories"
  options := [
    { summary := "no error if existing, make parent directories as needed"
      short := ["-p"]
      long := ["--parents"] },
    { summary := "set file mode (as in chmod), not a=rwx - umask"
      short := ["-m"]
      long := ["--mode"]
      takesValue := true }]

/-- The command `echo`. -/
def echo : CommandEntry where
  name := "echo"
  summary := "display a line of text"
  options := [
    { summary := "do not output the trailing newline"
      short := ["-n"] },
    { summary := "enable interpretation of backslash escapes"
      short := ["-e"] }]

/-- The command `tar`. -/
def tar : CommandEntry where
  name := "tar"
  summary := "an archiving utility"
  options := [
    { summary := "create a new archive"
      short := ["-c"]
      long := ["--create"] },
    { summary := "extract files from an archive"
      short := ["-x"]
      long := ["--extract", "--get"] },
    { summary := "filter the archive through gzip"
      short := ["-z"]
      long := ["--gzip"] },
    { summary := "verbosely list files processed"
      short := ["-v"]
      long := ["--verbose"] },
    { summary := "use archive file or device ARCHIVE"
      short := ["-f"]
      long := ["--file"]
      takesValue := true }]

/-- The subcommand `git commit`. -/
def gitCommit : CommandEntry where
  name := "commit"
  summary := "record changes to the repository"
  options := [
    { summary := "automatically stage files that have been modified and deleted"
      short := ["-a"]
      long := ["--all"] },
    { summary := "use the given message as the commit message"
      short := ["-m"]
      long := ["--message"]
      takesValue := true },
    { summary := "replace the tip of the current branch by creating a new commit"
      long := ["--amend"] }]

/-- The subcommand `git push`. -/
def gitPush : CommandEntry where
  name := "push"
  summary := "update remote refs along with associated objects"
  options := [
    { summary := "disable the check that the remote ref is an ancestor of the local ref"
      short := ["-f"]
      long := ["--force"] },
    { summary := "add upstream (tracking) reference"
      short := ["-u"]
      long := ["--set-upstream"] }]

/-- The subcommand `git log`. -/
def gitLog : CommandEntry where
  name := "log"
  summary := "show commit logs"
  options := [
    { summary := "shorthand for --pretty=oneline --abbrev-commit used together"
      long := ["--oneline"] },
    { summary := "limit the number of commits to output"
      short := ["-n"]
      long := ["--max-count"]
      takesValue := true }]

/-- The command `git`. -/
def git : CommandEntry where
  name := "git"
  summary := "the stupid content tracker"
  options := [
    { summary := "run as if git was started in the given path"
      short := ["-C"]
      takesValue := true },
    { summary := "prints the Git suite version"
      long := ["--version"] }]
  subcommands := [gitCommit, gitPush, gitLog]

/-- The command `make`. -/
def make : CommandEntry where
  name := "make"
  summary := "GNU make utility to maintain groups of programs"
  options := [
    { summary := "specifies the number of jobs (commands) to run simultaneously"
      short := ["-j"]
      long := ["--jobs"]
      takesValue := true },
    { summary := "change to directory dir before reading the makefiles"
      short := ["-C"]
      long := ["--directory"]
      takesValue := true }]

end Bundled

/-- The commands known without a catalog file. -/
def bundled : Catalog where
  commands :=
    [Bundled.superuser, Bundled.ls, Bundled.cat, Bundled.grep, Bundled.head, Bundled.tail,
      Bundled.rm, Bundled.mkdir, Bundled.echo, Bundled.tar, Bundled.git, Bundled.make]

end ShellGloss.Catalog
