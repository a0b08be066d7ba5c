import RemoteCall.Arguments
import RemoteCall.CallClass
import RemoteCall.Channel.Scripted
import RemoteCall.Text.Quoted
/-!
# Registries

A service is a list of named methods. Services are registered one after another under names of their own,
each with all its methods or not at all, and a method is then known by its qualified name. Names hold no
dots, so a qualified name tells its service and its method.
-/

namespace RemoteCall

/-- What invoking a method comes to. -/
inductive Verdict (α : Type)
  | ok (a : α)
  | failed (e : AppError)
  /-- The method never answers. -/
  | never

/-- What a method does: it acts on the host's state and gives values, a source of bytes, or a sink. -/
inductive Handler (σ : Type)
  | normal (run : Arguments → σ → Verdict (List Value) × σ)
  | read (openSource : Arguments → σ → Verdict Supply × σ)
  | write (openSink : Arguments → σ → Verdict (Channel σ) × σ)

/-- The class that a handler serves. -/
def Handler.callClass {σ : Type} : Handler σ → CallClass
  | normal _ => .normal
  | read _ => .readStream
  | write _ => .writeStream

/-- One line that names a handler. -/
def Handler.display {σ : Type} (h : Handler σ) : String := s!"Handler({h.callClass.display})"

/-- The methods of a service, in the order in which they were added. -/
structure Service (σ : Type) where
  methods : List (String × Handler σ)

namespace Service

variable {σ : Type}

def empty : Service σ := ⟨[]⟩

/-- Adds a method. -/
def add (s : Service σ) (name : String) (h : Handler σ) : Service σ := ⟨s.methods ++ [(name, h)]⟩

/-- Adds a method whose name is marked with its class; one without mark or with another class is left out. -/
def addMarked (s : Service σ) (raw : String) (h : Handler σ) : Service σ :=
  match CallClass.ofMarkedName? raw with
  | some (c, name) => if c = h.callClass then s.add name h else s
  | none => s

end Service

/-- Why a service cannot be registered. -/
inductive RegistryError
  | invalidServiceName (name : String)
  | invalidMethodName (name : String)
  | alreadyRegistered (name : String)
  /-- The qualified name occurs twice. -/
  | duplicateMethod (qualified : String)
deriving DecidableEq, Repr

/-- What is asked of the names of services and methods. -/
def nameRule : String := "must be non-empty and contain no '.'"

def RegistryError.message : RegistryError → String
  | invalidServiceName name => s!"invalid service name {Text.quote name}: {nameRule}"
  | invalidMethodName name => s!"invalid method name {Text.quote name}: {nameRule}"
  | alreadyRegistered name => s!"already registered {name}"
  | duplicateMethod qualified => s!"method {qualified} registered twice"

/-- A registered method. -/
structure Method (σ : Type) where
  /-- The qualified name. -/
  name : String
  handler : Handler σ

def Method.callClass {σ : Type} (m : Method σ) : CallClass := m.handler.callClass

/-- Whether a service or a method may have this name. -/
def isValidName (name : String) : Bool := name != "" && !name.toList.contains '.'

/-- The name of a method among all services. -/
def qualify (service method : String) : String := service ++ "." ++ method

/-- Methods by qualified name. -/
structure Registry (σ : Type) where
  methods : SortedMap String (Method σ)

namespace Registry

variable {σ : Type}

def empty : Registry σ := ⟨.empty⟩

def get? (r : Registry σ) (qualified : String) : Option (Method σ) := r.methods.find? qualified

def size (r : Registry σ) : Nat := r.methods.size

/-- All methods in the order of their names. -/
def toList (r : Registry σ) : List (Method σ) := r.methods.toList.map Prod.snd

/-- What a server tells its clients. -/
def capabilities (r : Registry σ) : Capabilities := r.methods.mapValues (fun _ m => m.callClass)

end Registry

/-- A registry under construction: the methods so far, and the names of the registered services. -/
structure RegistryBuilder (σ : Type) where
  methods : SortedMap String (Method σ)
  services : List String

namespace RegistryBuilder

variable {σ : Type}

def empty : RegistryBuilder σ := ⟨.empty, []⟩

/-- The methods of one service by qualified name, up to the first that cannot be added. -/
def collect (service : String) :
    List (String × Handler σ) → SortedMap String (Method σ) →
      Except RegistryError (SortedMap String (Method σ))
  | [], added => .ok added
  | (name, h) :: rest, added =>
    if !isValidName name then .error (.invalidMethodName name)
    else
      let qualified := qualify service name
      if added.contains qualified then .error (.duplicateMethod qualified)
      else collect service rest (added.insert qualified ⟨qualified, h⟩)

/-- Registers a service with all its methods: it may fail, and works on the builder in place. -/
def registering (name : String) (service : Service σ) :
    ExceptT RegistryError (StateM (RegistryBuilder σ)) Unit := do
  unless isValidName name do throw (.invalidServiceName name)
  if (← get).services.contains name then throw (.alreadyRegistered name)
  let added ← MonadExcept.ofExcept (collect name service.methods .empty)
  modify fun b => { b with services := b.services ++ [name] }
  modify fun b => { b with methods := added.toList.foldl (fun ms e => ms.insert e.1 e.2) b.methods }

/-- Registers a service; also tells what the builder is then, after a failure as well. -/
def register (b : RegistryBuilder σ) (name : String) (service : Service σ) :
    Except RegistryError Unit × RegistryBuilder σ :=
  (registering name service).run.run b

/-- Registers services one after another, whatever becomes of each, and tells what each comes to. -/
def registerAll (b : RegistryBuilder σ) :
    List (String × Service σ) → List (Except RegistryError Unit) × RegistryBuilder σ
  | [] => ([], b)
  | (name, service) :: rest =>
    let (result, b) := b.register name service
    let (results, b) := b.registerAll rest
    (result :: results, b)

def build (b : RegistryBuilder σ) : Registry σ := ⟨b.methods⟩

end RegistryBuilder

end RemoteCall
