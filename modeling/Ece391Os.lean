import Ece391Os.Library.EventRun
import Ece391Os.Library.ErasedRun
import Ece391Os.Library.CyclicSearch
import Ece391Os.Library.SequentialRead
import Ece391Os.Library.StackForest
import Ece391Os.Library.LineEditor
import Ece391Os.Library.PaddedText
import Ece391Os.Library.Numeral
import Ece391Os.Library.RecallRing
import Ece391Os.Library.Cursor
import Ece391Os.Library.ScrollingSheet
import Ece391Os.Library.Interaction
import Ece391Os.Library.BoundedLines
import Ece391Os.Library.PageWalk
import Ece391Os.Library.CyclicMemory
import Ece391Os.Library.PointerChain
import Ece391Os.Model.State
import Ece391Os.Model.CString
import Ece391Os.Model.FileSystem
import Ece391Os.Model.Screen
import Ece391Os.Model.Drivers
import Ece391Os.Model.Processes
import Ece391Os.Model.Keyboard
import Ece391Os.Model.Scheduler
import Ece391Os.Model.Syscalls
import Ece391Os.Model.TerminalSwitch
import Ece391Os.Model.Machine
import Ece391Os.Model.NestedKeyboard
import Ece391Os.Model.Console
import Ece391Os.Model.InputSession
import Ece391Os.Model.SystemCall
import Ece391Os.Model.ProcessCalls
import Ece391Os.Model.Exceptions
import Ece391Os.Model.RealTimeClock
import Ece391Os.Model.TextStores
import Ece391Os.Model.NumberFormat
import Ece391Os.Model.UserLibrary
import Ece391Os.Model.UserPrograms
import Ece391Os.Model.Paging
import Ece391Os.Model.MemoryRoutines
import Ece391Os.Model.Blink
import Ece391Os.Model.ReadBuffer
import Ece391Os.Model.InterruptedOutput
import Ece391Os.Model.InterruptedExecute
import Ece391Os.Properties.FileData
import Ece391Os.Properties.FileReading
import Ece391Os.Properties.ReadBounds
import Ece391Os.Properties.DescriptorTable
import Ece391Os.Properties.Executables
import Ece391Os.Properties.Listing
import Ece391Os.Properties.KernelStacks
import Ece391Os.Properties.ProgramImage
import Ece391Os.Properties.CallFrames
import Ece391Os.Properties.Tasks
import Ece391Os.Properties.Rotation
import Ece391Os.Properties.SlotStates
import Ece391Os.Properties.SwitchWait
import Ece391Os.Properties.ProcessTree
import Ece391Os.Properties.ContextSwitch
import Ece391Os.Properties.ReturnValues
import Ece391Os.Properties.TextOutput
import Ece391Os.Properties.KeyCases
import Ece391Os.Properties.LineBuffers
import Ece391Os.Properties.LineEditing
import Ece391Os.Properties.LineHistory
import Ece391Os.Properties.LineRecall
import Ece391Os.Properties.NestedKeys
import Ece391Os.Properties.ProcessAccounting
import Ece391Os.Properties.FailedExecute
import Ece391Os.Properties.Refusals
import Ece391Os.Properties.Arguments
import Ece391Os.Properties.ExitStatus
import Ece391Os.Properties.ClockRates
import Ece391Os.Properties.VideoRouting
import Ece391Os.Properties.ScreenIsolation
import Ece391Os.Properties.SwitchRoundTrip
import Ece391Os.Properties.KeyActions
import Ece391Os.Properties.TerminalInput
import Ece391Os.Properties.InputIsolation
import Ece391Os.Properties.DeliveredLines
import Ece391Os.Properties.ResumePoints
import Ece391Os.Properties.RespawnedShells
import Ece391Os.Properties.DirectoryLoop
import Ece391Os.Properties.Lookup
import Ece391Os.Properties.ModifierKeys
import Ece391Os.Properties.HistoryPosition
import Ece391Os.Properties.SwitchKeys
import Ece391Os.Properties.PageRefinement
import Ece391Os.Properties.OutputBounds
import Ece391Os.Properties.InputDisplay
import Ece391Os.Properties.ShownLine
import Ece391Os.Properties.CarriageReturns
import Ece391Os.Properties.NumberFormat
import Ece391Os.Properties.FormatStrings
import Ece391Os.Properties.RateEncoding
import Ece391Os.Properties.UserLibrary
import Ece391Os.Properties.UserReading
import Ece391Os.Properties.CatAndLs
import Ece391Os.Properties.Grep
import Ece391Os.Properties.AddressSpaces
import Ece391Os.Properties.MemoryCopies
import Ece391Os.Properties.BlinkList
import Ece391Os.Properties.BlinkDisplay
import Ece391Os.Properties.ProcessIsolation
import Ece391Os.Properties.StartedPrograms
import Ece391Os.Properties.ShellCommands
import Ece391Os.Properties.Counter
import Ece391Os.Properties.InterruptedOutput
import Ece391Os.Properties.SlotAccounting
