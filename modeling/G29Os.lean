import G29Os.BoundedLoop
import G29Os.ByteRange
import G29Os.ReadDataCore
import G29Os.ReadData
import G29Os.ReadPastEnd
import G29Os.Console
import G29Os.Devices
import G29Os.Terminal
import G29Os.StepRun
import G29Os.LineDiscipline
import G29Os.KeyboardRefinement
import G29Os.InputMachine
import G29Os.TypedLine
import G29Os.LineDelivery
import G29Os.InputIsolation
import G29Os.Directory
import G29Os.Paging
import G29Os.Process
import G29Os.Kernel
import G29Os.Machine
import G29Os.PointerChain
import G29Os.AddressSpace
import G29Os.ProcessTable
import G29Os.KernelEffects
import G29Os.ProcessInvariant
import G29Os.ProcessSpaces
import G29Os.ExecuteBracket
import G29Os.SwitchMemory
import G29Os.Descriptors
import G29Os.KernelInput
import G29Os.CallEffects
import G29Os.TextRows
import G29Os.StringMove
import G29Os.ConsoleText
import G29Os.DriverSteps
import G29Os.CallFrames
import G29Os.ProcessTurns
import G29Os.ExitStatus
import G29Os.KernelStack
import G29Os.StackDrift
import G29Os.StrayWrites
import G29Os.PcbBytes
import G29Os.StackFrames
import G29Os.FrameDamage
import G29Os.StruckParent
import G29Os.TornCaller
import G29Os.ClearProcesses
import G29Os.ClearCalls
import G29Os.DescriptorEntries
import G29Os.DescriptorTable
import G29Os.UserReads
import G29Os.LineEditor
import G29Os.SwitchScreen
import G29Os.ProgramNames
import G29Os.CursorText
import G29Os.LineDisplay
import G29Os.KeyWrites
import G29Os.CStrings
import G29Os.DirectoryLookup
import G29Os.DescriptorReads
import G29Os.ImageReads
import G29Os.FilePosition
import G29Os.DirectoryReads
import G29Os.PageMapping
import G29Os.ArgumentTransfer
import G29Os.CommandLoops
import G29Os.CommandParsing
import G29Os.ExecuteCases
import G29Os.FirstFit
import G29Os.ExecuteEffect
import G29Os.ExecuteLoading
import G29Os.Processor
import G29Os.InterruptFlag
import G29Os.RtcRates
import G29Os.RtcTicks
import G29Os.VidmapRange
import G29Os.StringRoutines
import G29Os.ScreenWrites
import G29Os.DentryCopy
import G29Os.Numerals
import G29Os.NumberFormat
import G29Os.PrintFormat
import G29Os.KeyboardRearm
import G29Os.CursorMoves
import G29Os.LineOrigin
import G29Os.OriginTracking
import G29Os.CallTree
import G29Os.Sessions
import G29Os.Volumes
import G29Os.SessionCalls
import G29Os.UserPrograms
import G29Os.StackBank
import G29Os.ProcessStacks
import G29Os.StackCode
import G29Os.Wrappers
import G29Os.ContextSwitch
import G29Os.BitFields
import G29Os.PageWalk
import G29Os.PageWords
import G29Os.InterruptTables
import G29Os.BootTables
import G29Os.InterruptController
import G29Os.InterruptRuns
import G29Os.Dialogues
import G29Os.HeardLines
import G29Os.DialogueCalls
import G29Os.ShellProgram
import G29Os.CounterProgram
import G29Os.Exceptions
