import ConsoleShell.Shell.Action
/-! A command runs until it ends, has to wait, or has had a full turn. -/
namespace ConsoleShell.Shell

def question (message : Text) : Text := message ++ " [Y/n]"

def askAgain : Text := "Please answer y or n."

/-- So many sleeps can come to their end in one turn. -/
def fullTurn : Nat := 128

def startedTurn : Nat := fullTurn - 1

/-- Runs a program up to its end, up to what it waits for, or until nothing is left of its turn.
A sleep of no length is over at once, but takes up some of the turn. -/
def perform (c : Invocation) : Nat → Program → Shell → Halt × Shell
  | _, .finish, s => (.ended .finished, s)
  | _, .fail failure, s => (.ended (.failed failure), s)
  | _, .crash, s => (.ended .crashed, s)
  | left, .print kind text next, s =>
    let (group, s) := s.print c kind text
    perform c left (next group) s
  | left, .update group text next, s =>
    let (there, s) := s.update c group text
    perform c left (next there) s
  | left, .delete group next, s =>
    let (there, s) := s.delete c group
    perform c left (next there) s
  | left, .clear next, s => perform c left next (s.clear c)
  | left, .replay groups next, s => perform c left next (s.replay c groups)
  | left, .inspect next, s => perform c left (next (s.view c)) s
  | left, .change what next, s => perform c left next (s.change c.session what)
  | left, .kill job next, s =>
    let (outcome, s) := s.killJob job
    perform c left (next outcome) s
  | left, .roll sides next, s =>
    let (n, s) := s.roll sides
    perform c left (next n) s
  | left, .onCancel text next, s => perform c left next (s.onCancel c text)
  | left, .sleep span stopped next, s =>
    if s.isCancelled c.origin then perform c left stopped s
    else match left with
      | 0 => (.yielded (.sleep span stopped next), s)
      | left + 1 =>
        if span.ticks = 0 then perform c left next s
        else (.waiting (.sleep (s.clock + span.ticks) stopped next), s)
  | _, .readLine next, s =>
    match s.awaitLine c with
    | (.ok request, s) => (.waiting (.line request next), s)
    | (.error failure, s) => (.ended (.failed failure), s)
  | _, .confirm message next, s =>
    let (_, s) := s.print c .output (question message)
    match s.awaitLine c with
    | (.ok request, s) => (.waiting (.answer request next), s)
    | (.error failure, s) => (.ended (.failed failure), s)
  | left, .awaitJob job next, s =>
    match s.jobs.watch job with
    | (.settled found, _) => perform c left (next found) s
    | (.missing, _) => (.ended (.failed (.job (.notFound job))), s)
    | (.running, watch) =>
      if s.isCancelled c.origin then (.ended (.failed .cancelled), s)
      else (.waiting (.job watch next), s)
  | left, .awaitCancel next, s =>
    if s.isCancelled c.origin then perform c left next s else (.waiting (.cancel next), s)

/-- What a command goes on with when both what it waited for and a cancellation have come. -/
inductive Tie where
  | event
  | cancellation
  deriving DecidableEq, Repr

def takeLine (request : RequestId) (s : Shell) (next : Text → Shell → Halt × Shell) :
    Halt × Shell :=
  match s.requests.poll request with
  | (.line text, requests) => next text { s with requests }
  | (.error error, requests) => (.ended (.failed (.input error)), { s with requests })
  | _ => (.ended (.failed .cancelled), { s with requests := s.requests.abandon request })

def proceed (c : Invocation) (s : Shell) : Wait → Halt × Shell
  | .sleep _ _ next => perform c startedTurn next s
  | .line request next => takeLine request s fun text => perform c startedTurn (next text)
  | .answer request next =>
    takeLine request s fun text s =>
      match Answer.ofLine text with
      | .yes => perform c startedTurn (next true) s
      | .no => perform c startedTurn (next false) s
      | .unclear =>
        let (_, s) := s.print c .output askAgain
        match s.awaitLine c with
        | (.ok request, s) => (.waiting (.answer request next), s)
        | (.error failure, s) => (.ended (.failed failure), s)
  | .job watch next => perform c fullTurn (.awaitJob watch.job next) s
  | .cancel next => perform c fullTurn next s

def abort (c : Invocation) (s : Shell) : Wait → Halt × Shell
  | .sleep _ stopped _ => perform c fullTurn stopped s
  | .line request _ | .answer request _ =>
    (.ended (.failed .cancelled), { s with requests := s.requests.abandon request })
  | .job _ _ => (.ended (.failed .cancelled), s)
  | .cancel next => perform c fullTurn next s

def goOn (tie : Tie) (c : Invocation) (wait : Wait) (s : Shell) : Halt × Shell :=
  match s.hasHappened wait, s.isCancelled c.origin, tie with
  | true, false, _ | true, true, .event => proceed c s wait
  | true, true, .cancellation | false, true, _ => abort c s wait
  | false, false, _ => (.waiting wait, s)

end ConsoleShell.Shell
