import RemoteCall.Registry
/-!
# Demonstration methods

Methods to try clients and servers with: arithmetic, echoes, fixed answers, sources that are given
beforehand, and sinks that remember what was written into them.
-/

namespace RemoteCall.Demo

/-- The sinks opened so far, in order, each with the name of the method that opened it. -/
abbrev SinkLog := Array (String × Intake)

/-- What a method of the normal class does. -/
inductive NormalAct
  /-- Answers its arguments. -/
  | echo
  /-- Adds two integers, modulo 2 ^ 64. -/
  | add
  /-- Divides two integers, toward zero, and answers a nil error behind the quotient. -/
  | divide
  | fail (e : AppError)
  | give (values : List Value)
  /-- Answers the decimal text of one of its arguments, in quotes. -/
  | argument (index : Nat)
  | never

/-- What a method of the read class does. -/
inductive ReadAct
  | source (s : Supply)
  /-- Sends the byte string that is its first argument. -/
  | argument
  | fail (e : AppError)

/-- What a method of the write class does. -/
inductive WriteAct
  | capture (t : Intake)
  | fail (e : AppError)

/-- Two integers. -/
def twoIntegers : Signature (Int64 × Int64 × Unit) := .next (.next .none)

def NormalAct.run : NormalAct → Arguments → Except AppError (List Value)
  | echo, args => .ok args.values
  | add, args => do
    let (a, b, _) ← args.parse twoIntegers
    return [.int (a + b)]
  | divide, args => do
    let (a, b, _) ← args.parse twoIntegers
    if b = 0 then throw (.ofMessage "division by zero")
    return [.int (a / b), .error .nil]
  | fail e, _ => .error e
  | give values, _ => .ok values
  | argument index, args => do
    match args.values[index]? with
    | none => throw (.ofMessage s!"missing argument {index}")
    | some v =>
      let n : UInt32 ← fromValue v
      return [.text s!"\"{n.toNat}\""]
  | never, _ => .ok []

def verdict {α : Type} : Except AppError α → Verdict α
  | .ok a => .ok a
  | .error e => .failed e

def NormalAct.handler : NormalAct → Handler SinkLog
  | never => .normal fun _ log => (.never, log)
  | act => .normal fun args log => (verdict (act.run args), log)

def ReadAct.run : ReadAct → Arguments → Except AppError Supply
  | source s, _ => .ok s
  | argument, args => do return .ofBytes (← args.get Bytes 0)
  | fail e, _ => .error e

def ReadAct.handler (act : ReadAct) : Handler SinkLog :=
  .read fun args log => (verdict (act.run args), log)

/-- One of the opened sinks. -/
def sinkChannel (i : Nat) : Channel SinkLog :=
  let operate {α : Type} (f : Intake → Poll α × Intake) (log : SinkLog) : Poll α × SinkLog :=
    match log[i]? with
    | some (method, t) => let (r, t) := f t; (r, log.set! i (method, t))
    | none => (.failed .brokenPipe, log)
  { read := fun n => operate (Intake.channel.read n)
    write := fun bs => operate (Intake.channel.write bs)
    flush := operate Intake.channel.flush
    shutdown := operate Intake.channel.shutdown
    release := fun log => log.modify i (fun s => (s.1, Intake.channel.release s.2)) }

/-- Opens a sink under the name of its method. -/
def WriteAct.handler (method : String) : WriteAct → Handler SinkLog
  | capture t => .write fun _ log => (.ok (sinkChannel log.size), log.push (method, t))
  | fail e => .write fun _ log => (.failed e, log)

end RemoteCall.Demo
