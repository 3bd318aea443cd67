import CallFill.Disk.Basic
import CallFill.Workspace
import CallFill.Proofs.Text.Names
import CallFill.Proofs.Synthesis.Term
import CallFill.Proofs.Synthesis.Bounds
import CallFill.Proofs.Editing.Splice
import CallFill.Proofs.Source.Trivia
import CallFill.Proofs.Source.Tokens
import CallFill.Proofs.Source.Lexing
import CallFill.Proofs.Source.Layout
import CallFill.Proofs.Source.Reading
import CallFill.Proofs.Source.Forms
import CallFill.Proofs.Source.RuleForms
import CallFill.Proofs.Source.Arguments
import CallFill.Proofs.Source.WellFormed
import CallFill.Proofs.Source.Joints
import CallFill.Proofs.Source.Parsing
import CallFill.Proofs.Scope.CallLayout
import CallFill.Proofs.Codebase.Calls
import CallFill.Proofs.Population.PlanText
import CallFill.Proofs.Editing.CallEdits
import CallFill.Proofs.Editing.FillChanges
import CallFill.Proofs.Editing.FillTransaction
import CallFill.Proofs.Workspace.Reachable
import CallFill.Proofs.Workspace.Frame
import CallFill.Proofs.Synthesis.Grammar
import CallFill.Proofs.Synthesis.Accounting
import CallFill.Proofs.Population.Binding
import CallFill.Proofs.Union.Signature
import CallFill.Proofs.Population.ChosenMember
import CallFill.Proofs.Population.Protocol
import CallFill.Proofs.Population.Prompting
import CallFill.Proofs.Editing.WholeCall
import CallFill.Proofs.Workspace.Preview
import CallFill.Proofs.Workspace.Spelling
import CallFill.Proofs.Disk.Access
import CallFill.Proofs.Workspace.Saving
import CallFill.Proofs.Editing.Commit
import CallFill.Proofs.Editing.History
import CallFill.Proofs.Synthesis.Refinement
import CallFill.Proofs.Codebase.FieldTypes
import CallFill.Proofs.Codebase.FileOrder
import CallFill.Proofs.Codebase.SymbolClasses
import CallFill.Proofs.Codebase.ImportForms
import CallFill.Proofs.Codebase.RecordFields
import CallFill.Proofs.Population.NestedCalls
import CallFill.Proofs.Union.Settling
import CallFill.Proofs.Typing.Spellings
import CallFill.Proofs.Population.LocalScope
import CallFill.Proofs.Population.Expansion
import CallFill.Proofs.Codebase.VisibleAlias
import CallFill.Proofs.Codebase.Lookup
import CallFill.Proofs.Text.Words
import CallFill.Proofs.Definition.ClassPlace
import CallFill.Proofs.Definition.ImportLayout
import CallFill.Proofs.Scope.ClassPath
import CallFill.Proofs.Definition.CollectedClasses
import CallFill.Proofs.Codebase.PlainNames
import CallFill.Proofs.Codebase.ForeignNames
import CallFill.Proofs.Codebase.ConstructedReceiver
import CallFill.Proofs.Codebase.EnclosingClass
import CallFill.Proofs.Codebase.Reexports
import CallFill.Proofs.Editing.Rendering
import CallFill.Proofs.Scope.Comments
import CallFill.Proofs.Workspace.Erasure
import CallFill.Proofs.Editing.Simultaneous
import CallFill.Proofs.Typing.Interning
import CallFill.Proofs.Codebase.ScopeTree
import CallFill.Proofs.Codebase.InnermostCall
import CallFill.Proofs.Codebase.RelativeImports
