import Papiex.Lib.FallibleRun
import Papiex.Lib.Stopwatch
import Papiex.Caliper.Accounting
import Papiex.Caliper.Within
import Papiex.Caliper.Gcc
import Papiex.Caliper.Locals
import Papiex.Caliper.Points
import Papiex.Caliper.Uses
import Papiex.Caliper.Keys
import Papiex.Caliper.Hexadecimal
import Papiex.Caliper.Labels
import Papiex.Pathscale.Hooks
import Papiex.Process.Shutdown
import Papiex.Process.Fork
import Papiex.Process.Registry
import Papiex.Monitor.NodeStore
import Papiex.Monitor.ThreadNodes
import Papiex.Monitor.Transparency
import Papiex.Profiling.Wrapper
import Papiex.Profiling.Mutex
import Papiex.Profiling.Mpi
import Papiex.Profiling.Waitsome
import Papiex.Profiling.Prototypes
import Papiex.Classic.Order
import Papiex.Classic.Rows
import Papiex.Output.Path
import Papiex.Output.Counters
import Papiex.Output.Percent
import Papiex.Mpi.Completion
import Papiex.Mpi.Container
import Papiex.Options.Channel
import Papiex.Options.Conflicts
import Papiex.Options.EventTables
import Papiex.Options.EventCheck
import Papiex.Options.EventLimit
import Papiex.Options.EventNames
import Papiex.Options.Buffers
import Papiex.Options.DefaultArgs
import Papiex.Report.Input
import Papiex.Report.RoundTrip
import Papiex.Report.CsvFile
import Papiex.Report.Tasks
import Papiex.Report.Agreement
import Papiex.Report.Leftovers
import Papiex.Report.Variation
import Papiex.Report.Shares
import Papiex.Report.HeaderLines
import Papiex.Report.ArchValues

/-!
# papiex and libmonitor

papiex counts hardware events in a program that it is loaded into.  libmonitor tells it when
processes and threads start and end; calipers, instrumented functions and loops, and wrapped
calls of MPI, of input and output and of mutexes start and stop the counts between; at the
end each thread writes a file of its counts, and a Perl script makes a report of the files.

The modules follow this way.

* `Papiex.Lib`: what names nothing of papiex.  Runs that may fail, interleavings, stopwatches,
  greedy choices, lists linked by pointers, `strtok`, lines, `float` numbers.
* `Papiex.Caliper`, `Papiex.Pathscale`, `Papiex.Profiling`: what is counted, and where, in one
  thread.
* `Papiex.Process`: the callbacks of libmonitor, and the threads of a process.
* `Papiex.Monitor`: libmonitor itself, with all interleavings of its threads, its store of
  nodes and its signals; `Papiex.Monitor.Contract` joins it to `Papiex.Process`.
* `Papiex.Classic`, `Papiex.Output`, `Papiex.Mpi`: the statistics of classic mode, the files,
  and the tasks of an MPI job that write them.
* `Papiex.Options`: from the command line through the option string to the library.
* `Papiex.Report`: the files as they are read back, and the report.

Each definition keeps the name of the function it models.  The theorems of a module are about
every run, every input or every file; where the code is right under a condition only, the
theorem gives the condition.
-/
